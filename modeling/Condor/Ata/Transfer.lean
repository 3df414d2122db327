import Condor.Ata.Machine

/-!
# Transfers

The public functions of `ata.c`. `ata_readSectors` and `ata_writeSectors` make
the same checks and the same writes up to the command (`ata_refuses`,
`task_file`). Their transfer loops, and the packet transfer of
`atapi_sendCommand` with its `goto tryAgain`, are bounded only by what the
device answers, so they are `loop`s.
-/

namespace Condor.Ata

open Lib Lib.Prog

def ATA_READ_SECTORS : BitVec 8 := 0x20
def ATA_READ_SECTORS_EXT : BitVec 8 := 0x24
def ATA_WRITE_SECTORS : BitVec 8 := 0x30
def ATA_WRITE_SECTORS_EXT : BitVec 8 := 0x34
def ATA_FLUSH_CACHE : BitVec 8 := 0xE7
def ATA_FLUSH_CACHE_EXT : BitVec 8 := 0xEA
def ATA_PACKET : BitVec 8 := 0xA0
def ATAPI_READ_6 : BitVec 8 := 0x08
def ATAPI_READ_12 : BitVec 8 := 0xA8
def ATAPI_WRITE_6 : BitVec 8 := 0x0A
def ATAPI_WRITE_12 : BitVec 8 := 0xAA

inductive CommandType where
  | READ
  | WRITE
  | MISC
  deriving DecidableEq, Repr

/-- Both operation codes are tested by their bits, and those of a read are among those of a write. -/
def atapi_getCommandType (command : BitVec 8) : CommandType :=
  if command &&& ATAPI_READ_6 = ATAPI_READ_6 then .READ
  else if command &&& ATAPI_WRITE_6 = ATAPI_WRITE_6 then .WRITE
  else .MISC

/-- `none` is `POISON_NULL`. -/
def ata_getDeviceInfo (device : Nat) : M (Option AtaDevice) := do
  if device = ATA_DEVICE_INVALID ∨ (← get).controller_index ≤ device then return none
  return some (← controller device)

def ata_sendCommand (device : Nat) (command : BitVec 8) (data_length : Nat) : M Bool := do
  let base ← switchDevice device
  if device = ATA_DEVICE_INVALID ∨ data_length = 0 ∨ base = 0xFFF then return false
  outb (base + ATA_COMMAND) command
  waitForIRQ device
  return (← controller device).has_errored

/-! ## ATA -/

/-- `lba + sector_count > 0x0FFFFFFF && controllers[..]->lba48_support == 0`. -/
def out_of_range (device : Nat) (lba : BitVec 64) (sector_count : BitVec 8) : M Bool := do
  if 0x0FFFFFFF < lba + sector_count.setWidth 64 then return !(← controller device).lba48_support
  return false

/-- The checks at the head of `ata_readSectors` and `ata_writeSectors`, in their order. -/
def ata_refuses (device : Nat) (lba : BitVec 64) (sector_count : BitVec 8) : M Bool := do
  if ← out_of_range device lba sector_count then return true
  if sector_count = 0 then return true
  if (← controller device).in_use then return true
  if (← get).controllers.isNone then return true
  if device = ATA_DEVICE_INVALID then return true
  if (← controller device).interface_type = .INVALID then return true
  return (← controller device).interface_type ≠ .ATA

/-- `(device & 1) << 5`. -/
def drive_bit (device : Nat) : BitVec 8 := .ofNat 8 ((device &&& 1) <<< 5)

/-- `(lba >> n) & 0xFF`. -/
def lba_byte (lba : BitVec 64) (n : Nat) : BitVec 8 := (lba >>> n).setWidth 8

/-- The writes from the sector count to the command, as offsets and values. -/
def task_file (device : Nat) (lba : BitVec 64) (sector_count : BitVec 8) (lba48 : Bool)
    (cmd48 cmd28 : BitVec 8) : List (BitVec 32 × BitVec 8) :=
  [(ATA_SECT_COUNT, sector_count)] ++
  (if lba48 then
    [(ATA_LBALO, lba_byte lba 24), (ATA_LBAMI, lba_byte lba 32), (ATA_LBAHI, lba_byte lba 40)]
  else []) ++
  [(ATA_LBALO, lba_byte lba 0), (ATA_LBAMI, lba_byte lba 8), (ATA_LBAHI, lba_byte lba 16)] ++
  (if lba48 then [(ATA_DEVICE_SEL, drive_bit device ||| 0x40), (ATA_COMMAND, cmd48)]
  else [(ATA_DEVICE_SEL, (lba_byte lba 24 &&& 0xF) ||| drive_bit device ||| 0x40), (ATA_COMMAND, cmd28)])

/-- From the switch to the command. -/
def ata_issue (device : Nat) (base : BitVec 32) (lba : BitVec 64) (sector_count : BitVec 8)
    (cmd48 cmd28 : BitVec 8) : M Unit := do
  write (device >>> DEVICE_INFO_SHIFT) (·.use true)
  let d ← controller device
  outbs base (task_file device lba sector_count d.lba48_support cmd48 cmd28)

/-- The end of a transfer. -/
def ata_finish (device : Nat) : M Bool := do
  write (device >>> DEVICE_INFO_SHIFT) (·.use false)
  return !(← has_errored device)

/-- One turn of the transfer loop of `ata_readSectors`. -/
def read_word (device : Nat) (base : BitVec 32) (i : Nat) : M (Nat ⊕ Unit) := do
  let status ← inb .drq (← controller device).alt_port
  if status &&& 0x08 ≠ 0 then
    let w ← inw base
    store i (w.setWidth 32)
    return .inl (i + 1)
  return .inr ()

def ata_readSectors (device : Nat) (lba : BitVec 64) (sector_count : BitVec 8) : M Bool := do
  if ← ata_refuses device lba sector_count then return false
  let base ← switchDevice device
  if base = 0 then return false
  ata_issue device base lba sector_count ATA_READ_SECTORS_EXT ATA_READ_SECTORS
  waitForIRQ device
  loop (read_word device base) 0
  ata_finish device

/-- One turn of the transfer loop of `ata_writeSectors`. -/
def write_word (base : BitVec 32) (i : Nat) : M (Nat ⊕ Unit) := do
  let status ← inb .drq (base + ATA_STATUS)
  if status &&& 0x08 ≠ 0 then
    outw base ((← load i).setWidth 16)
    return .inl (i + 1)
  return .inr ()

def ata_writeSectors (device : Nat) (lba : BitVec 64) (sector_count : BitVec 8) : M Bool := do
  if ← ata_refuses device lba sector_count then return false
  let base ← switchDevice device
  if base = 0 then return false
  ata_issue device base lba sector_count ATA_WRITE_SECTORS_EXT ATA_WRITE_SECTORS
  loop (write_word base) 0
  let d ← controller device
  outb (base + ATA_COMMAND) (if d.lba48_support then ATA_FLUSH_CACHE_EXT else ATA_FLUSH_CACHE)
  ata_finish device

/-! ## ATAPI -/

/-- The words of the packet that the switch after the first six sends: `case 1` falls through into
`case 2`, and `case 2` jumps back into `case 1` for a short command. -/
def packet_tail (command_length : BitVec 8) (max_command_length : BitVec 2) : List Nat :=
  let wide := [8, 9, 10, 11, 12, 13, 14, 15]
  let size8 := if command_length < 16 then [] else if command_length < 32 then [6, 7] else [6, 7] ++ wide
  if max_command_length = 1 then size8
  else if max_command_length = 2 then (if command_length < 32 then size8 else wide)
  else []

/-- The words of the packet, of two bytes each. -/
def send_words (base : BitVec 32) (command : Nat → BitVec 8) : List Nat → M Unit
  | [] => pure ()
  | i :: l => do
    outw (base + ATA_DATA) ((command (2 * i)).setWidth 16 ||| (command (2 * i + 1)).setWidth 16 <<< 8)
    send_words base command l

def send_packet (device : Nat) (base : BitVec 32) (command : Nat → BitVec 8) (command_length : BitVec 8) :
    M Unit := do
  send_words base command [0, 1, 2]
  if command_length < 6 then return
  send_words base command [3, 4, 5]
  let d ← controller device
  send_words base command (packet_tail command_length d.max_command_length)

/-- One turn of the wait for the device to take the packet. -/
def packet_busy (alt_status : BitVec 32) (_ : Unit) : M (Unit ⊕ Unit) := do
  if (← inb .other alt_status) &&& 0x80 ≠ 0 then
    if (← inb .other alt_status) &&& 0x08 = 0 then return .inl ()
  return .inr ()

/-- The body of the packet's transfer loop, for the word at `index`. -/
def transfer_word (base : BitVec 32) (type : CommandType) (index : Nat) : M Unit := do
  match type with
  | .READ =>
    let w ← inw (base + ATA_DATA)
    store index (w.setWidth 32)
  | .WRITE => outw (base + ATA_DATA) ((← load index).setWidth 16)
  | .MISC => pure ()

/-- The packet's transfer loop, with the words left, the index and the last status. -/
def transfer_words (base alt_status : BitVec 32) (type : CommandType) :
    Nat → Nat → BitVec 8 → M (Nat × BitVec 8)
  | 0, index, status => pure (index, status)
  | n + 1, index, _ => do
    let status ← inb .check alt_status
    if status &&& 0x1 ≠ 0 then return (index, status)
    if (← inb .drq alt_status) &&& 0x08 = 0 then return (index, status)
    transfer_word base type index
    transfer_words base alt_status type n (index + 1) status

/-- One turn from `tryAgain`, which ends with the result or goes back with the index. -/
def try_again (device : Nat) (base alt_status : BitVec 32) (type : CommandType) (word_count index : Nat) :
    M (Nat ⊕ Bool) := do
  let _ ← inb .other alt_status
  let _ ← inb .other alt_status
  let _ ← inb .other alt_status
  let _ ← inb .other alt_status
  let (index, status) ← transfer_words base alt_status type word_count index 0
  if status &&& 0x01 ≠ 0 then return .inr false
  waitForIRQ device
  if (← inb .other alt_status) &&& 0x08 ≠ 0 then
    waitForIRQ device
    return .inl index
  write (device >>> DEVICE_INFO_SHIFT) (·.use false)
  return .inr true

def atapi_sendCommand (device : Nat) (command : Nat → BitVec 8) (command_length : BitVec 8) : M Bool := do
  if (← get).controllers.isNone then return false
  let base ← switchDevice device
  let alt_status := (← controller device).alt_port
  if (← controller device).interface_type ≠ .ATAPI then return false
  if (← controller device).in_use then return false
  if base = 0xFFFF then return false
  write (device >>> DEVICE_INFO_SHIFT) (·.use true)
  outb (base + ATA_FEATURES) 0x00
  outb (base + ATA_BYTELO) 0x00
  outb (base + ATA_BYTEHI) 0x01
  outb (base + ATA_COMMAND) ATA_PACKET
  loop (packet_busy alt_status) ()
  send_packet device base command command_length
  waitForIRQ device
  let lo ← inb .other (base + ATA_BYTELO)
  let hi ← inb .other (base + ATA_BYTEHI)
  let word_count := (lo.toNat ||| hi.toNat <<< 8) >>> 1
  loop (try_again device base alt_status (atapi_getCommandType (command 0)) word_count) 0

/-- `atapi_sendCommand` up to its `wait`: the ports it goes on with if it sends the packet. -/
def atapi_sendPacket (device : Nat) (command : Nat → BitVec 8) (command_length : BitVec 8) :
    M (Option (BitVec 32 × BitVec 32)) := do
  if (← get).controllers.isNone then return none
  let base ← switchDevice device
  let alt_status := (← controller device).alt_port
  if (← controller device).interface_type ≠ .ATAPI then return none
  if (← controller device).in_use then return none
  if base = 0xFFFF then return none
  write (device >>> DEVICE_INFO_SHIFT) (·.use true)
  outb (base + ATA_FEATURES) 0x00
  outb (base + ATA_BYTELO) 0x00
  outb (base + ATA_BYTEHI) 0x01
  outb (base + ATA_COMMAND) ATA_PACKET
  loop (packet_busy alt_status) ()
  send_packet device base command command_length
  return some (base, alt_status)

/-- `atapi_sendCommand` from its `wait` on. -/
def atapi_wait (device : Nat) (command : Nat → BitVec 8) : Option (BitVec 32 × BitVec 32) → M Bool
  | none => pure false
  | some (base, alt_status) => do
    waitForIRQ device
    let lo ← inb .other (base + ATA_BYTELO)
    let hi ← inb .other (base + ATA_BYTEHI)
    let word_count := (lo.toNat ||| hi.toNat <<< 8) >>> 1
    loop (try_again device base alt_status (atapi_getCommandType (command 0)) word_count) 0

theorem atapi_sendCommand_eq (device : Nat) (command : Nat → BitVec 8) (command_length : BitVec 8) :
    atapi_sendCommand device command command_length =
      atapi_sendPacket device command command_length >>= atapi_wait device command := by
  simp only [atapi_sendCommand, atapi_sendPacket, atapi_wait, bind_assoc, ite_bind, pure_bind]

/-- The packet of a read or write. -/
def rw_packet (opcode : BitVec 8) (lba : BitVec 64) (sector_count : BitVec 8) : Nat → BitVec 8
  | 0 => opcode
  | 2 => lba_byte lba 18
  | 3 => lba_byte lba 10
  | 4 => lba_byte lba 8
  | 5 => lba_byte lba 0
  | 9 => sector_count
  | _ => 0

/-- The checks at the head of `atapi_readSectors`. -/
def atapi_refuses (device : Nat) (lba : BitVec 64) (sector_count : BitVec 8) : M Bool := do
  if sector_count = 0 then return true
  if 0x0FFFFFFF < lba then return true
  if (← get).controllers.isNone then return true
  return (← controller device).interface_type ≠ .ATAPI

def atapi_readSectors (device : Nat) (lba : BitVec 64) (sector_count : BitVec 8) : M Bool := do
  if ← atapi_refuses device lba sector_count then return false
  let _ ← atapi_sendCommand device (rw_packet ATAPI_READ_12 lba sector_count) 12
  return true

/-- The checks at the head of `atapi_writeSectors`, which tests the type twice. -/
def atapi_write_refuses (device : Nat) (lba : BitVec 64) (sector_count : BitVec 8) : M Bool := do
  if sector_count = 0 then return true
  if 0x0FFFFFFF < lba then return true
  if (← get).controllers.isNone then return true
  if (← controller device).interface_type = .INVALID then return true
  return (← controller device).interface_type ≠ .ATAPI

/-- Its result is the pointer it was given. -/
def atapi_writeSectors (device : Nat) (lba : BitVec 64) (sector_count : BitVec 8)
    (destination : BitVec 32) :
    M Bool := do
  if ← atapi_write_refuses device lba sector_count then return false
  let _ ← atapi_sendCommand device (rw_packet ATAPI_WRITE_12 lba sector_count) 12
  return destination ≠ 0

/-- The first test of the type refuses nothing that the second one does not: a write is checked as a read is. -/
theorem atapi_write_refuses_eq (device : Nat) (lba : BitVec 64) (sector_count : BitVec 8) :
    atapi_write_refuses device lba sector_count = atapi_refuses device lba sector_count := by
  have hsecond : (do
      if (← controller device).interface_type = .INVALID then return true
      return decide ((← controller device).interface_type ≠ .ATAPI)) =
      (do return decide ((← controller device).interface_type ≠ .ATAPI) : M Bool) := by
    refine congrArg Prog.mk (funext fun m => ?_)
    cases h : m.record (device >>> DEVICE_INFO_SHIFT) with
    | none => simp only [controller, record, bind_run, get_run, h, stop_run]
    | some d =>
      simp only [controller, record, bind_run, get_run, h, pure_run]
      by_cases htype : d.interface_type = .INVALID
      · simp [htype, pure_run]
      · simp [htype, bind_run, get_run, h, pure_run]
  unfold atapi_write_refuses atapi_refuses
  rw [hsecond]

end Condor.Ata
