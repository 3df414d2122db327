import Condor.Lib.Prog
import Mathlib.Data.BitVec

/-!
# ATA devices, ports and interrupts

The state of `ata.c`, the ports and the caller's buffer. What the ports answer
is a list of responses, and a run that needs one more is `pending`: it has not
returned. An interrupt may arrive before each port access and each access to a
volatile field; `arrivals` says how many do, access by access. The log keeps
every port access and every access to the buffer, and a read of a port also
says which check of the code it belongs to.
-/

namespace Condor.Ata

open Lib Lib.Prog

def ATA_DEVICE_INVALID : Nat := 0xFFFF
def DEVICE_INFO_SHIFT : Nat := 1

def ATA_DATA : BitVec 32 := 0
def ATA_FEATURES : BitVec 32 := 1
def ATA_SECT_COUNT : BitVec 32 := 2
def ATA_LBALO : BitVec 32 := 3
def ATA_LBAMI : BitVec 32 := 4
def ATA_LBAHI : BitVec 32 := 5
def ATA_DEVICE_SEL : BitVec 32 := 6
def ATA_COMMAND : BitVec 32 := 7
def ATA_ERROR : BitVec 32 := ATA_FEATURES
def ATA_BYTELO : BitVec 32 := ATA_LBAMI
def ATA_BYTEHI : BitVec 32 := ATA_LBAHI
def ATA_STATUS : BitVec 32 := ATA_COMMAND

/-- `ata_interface_type_t`. -/
inductive InterfaceType where
  | INVALID
  | ATA
  | SATA
  | ATAPI
  | SATAPI
  deriving DecidableEq, Repr

structure AtaDevice where
  base_port : BitVec 32
  alt_port : BitVec 32
  interface_type : InterfaceType
  lba48_support : Bool
  max_command_length : BitVec 2
  in_use : Bool
  is_blocked : Bool
  has_errored : Bool
  error_info : BitVec 8
  deriving DecidableEq, Repr

namespace AtaDevice

def use (d : AtaDevice) (b : Bool) : AtaDevice := { d with in_use := b }

def block (d : AtaDevice) (b : Bool) : AtaDevice := { d with is_blocked := b }

def set_errored (d : AtaDevice) (b : Bool) : AtaDevice := { d with has_errored := b }

def set_error_info (d : AtaDevice) (v : BitVec 8) : AtaDevice := { d with error_info := v }

end AtaDevice

/-- What a read of a port is for: the interrupt handler's acknowledgement (of the controller it
credits the interrupt to), a check of the DRQ bit, the check of the CHK bit, or anything else. -/
inductive Why where
  | irq (controller : Nat)
  | drq
  | check
  | other
  deriving DecidableEq, Repr

inductive Access where
  | inb (why : Why) (port : BitVec 16) (value : BitVec 8)
  | inw (port : BitVec 16) (value : BitVec 16)
  | outb (port : BitVec 16) (value : BitVec 8)
  | outw (port : BitVec 16) (value : BitVec 16)
  | store (index : Nat) (value : BitVec 32)
  | load (index : Nat)
  deriving DecidableEq, Repr

/-- `controllers` is `none` while it is `POISON_NULL`. -/
structure Machine where
  controller_index : Nat
  controllers : Option (List AtaDevice)
  current_controller : BitVec 8
  responses : List (BitVec 16)
  arrivals : List Nat
  buffer : Nat → BitVec 32
  log : List Access

/-- Why a run ends before it returns: it waits for a port, or it indexes `controllers` out of bounds. -/
inductive Stop where
  | pending
  | wild
  deriving DecidableEq, Repr

abbrev M := Prog Stop Machine

/-! ## The controller table -/

namespace Machine

def record (m : Machine) (i : Nat) : Option AtaDevice := m.controllers.bind fun l => l[i]?

def set_record (m : Machine) (i : Nat) (d : AtaDevice) : Machine :=
  { m with controllers := m.controllers.map fun l => l.set i d }

def append_log (m : Machine) (a : Access) : Machine := { m with log := m.log ++ [a] }

def set_responses (m : Machine) (vs : List (BitVec 16)) : Machine := { m with responses := vs }

def set_arrivals (m : Machine) (ns : List Nat) : Machine := { m with arrivals := ns }

def set_current (m : Machine) (device : Nat) : Machine := { m with current_controller := .ofNat 8 device }

def store (m : Machine) (i : Nat) (v : BitVec 32) : Machine :=
  { m with buffer := Function.update m.buffer i v, log := m.log ++ [.store i v] }

end Machine

/-- `*controllers[i]`. -/
def record (i : Nat) : M AtaDevice := do
  match (← get).record i with
  | some d => pure d
  | none => stop .wild

/-- `controllers[i]->field = ..`. -/
def write (i : Nat) (f : AtaDevice → AtaDevice) : M Unit := do
  let d ← record i
  modify (·.set_record i (f d))

/-- `*controllers[device >> DEVICE_INFO_SHIFT]`. -/
def controller (device : Nat) : M AtaDevice := record (device >>> DEVICE_INFO_SHIFT)

/-! ## Ports -/

/-- The port at an address of 32 bits. -/
def port (address : BitVec 32) : BitVec 16 := address.setWidth 16

/-- The answer to a read of a port. -/
def respond : M (BitVec 16) := do
  match (← get).responses with
  | [] => stop .pending
  | v :: vs => do
    modify (·.set_responses vs)
    pure v

/-- `inb` without a point where an interrupt is taken. -/
def read_port (why : Why) (address : BitVec 32) : M (BitVec 8) := do
  let v ← respond
  modify (·.append_log (.inb why (port address) (v.setWidth 8)))
  pure (v.setWidth 8)

def ata_irq : M Unit := do
  let i := (← get).current_controller.toNat >>> 1
  let status ← read_port (.irq i) ((← record i).base_port + ATA_STATUS)
  if status &&& 0x01 ≠ 0 then
    write i (·.set_errored true)
    let error ← read_port .other ((← record i).base_port + ATA_ERROR)
    write i (·.set_error_info error)
  else
    write i (·.set_errored false)
    write i (·.set_error_info 0x00)
  write i (·.block false)

def handle : Nat → M Unit
  | 0 => pure ()
  | n + 1 => do
    ata_irq
    handle n

/-- The interrupts that arrive before the next access. -/
def interrupts : M Unit := do
  match (← get).arrivals with
  | [] => pure ()
  | n :: ns => do
    modify (·.set_arrivals ns)
    handle n

def inb (why : Why) (address : BitVec 32) : M (BitVec 8) := do
  interrupts
  read_port why address

def inw (address : BitVec 32) : M (BitVec 16) := do
  interrupts
  let v ← respond
  modify (·.append_log (.inw (port address) v))
  pure v

def outb (address : BitVec 32) (v : BitVec 8) : M Unit := do
  interrupts
  modify (·.append_log (.outb (port address) v))

def outw (address : BitVec 32) (v : BitVec 16) : M Unit := do
  interrupts
  modify (·.append_log (.outw (port address) v))

/-- `outb` at each offset from `base` in turn. -/
def outbs (base : BitVec 32) : List (BitVec 32 × BitVec 8) → M Unit
  | [] => pure ()
  | (offset, v) :: l => do
    outb (base + offset) v
    outbs base l

/-- `data[i]`. -/
def load (i : Nat) : M (BitVec 32) := do
  modify (·.append_log (.load i))
  pure ((← get).buffer i)

/-- `data[i] = v`. -/
def store (i : Nat) (v : BitVec 32) : M Unit := modify (·.store i v)

/-- A loop whose turns all read a port. The responses left bound the turns (`loop_eq`). -/
def loop {α β : Type} (body : α → M (α ⊕ β)) (a : α) : M β := do
  iterate body .pending ((← get).responses.length + 1) a

/-! ## Devices -/

/-- A read of the volatile flag. -/
def is_blocked (device : Nat) : M Bool := do
  interrupts
  return (← controller device).is_blocked

/-- A read of the volatile flag. -/
def has_errored (device : Nat) : M Bool := do
  interrupts
  return (← controller device).has_errored

/-- The loop of `waitForIRQ`, with the turns left before its timeout. -/
def wait_loop (device : Nat) : Nat → BitVec 8 → M Unit
  | 0, _ => do
    let _ ← is_blocked device
  | n + 1, alt_status => do
    if (← is_blocked device) ∧ alt_status &&& 0x1 = 0 then
      let alt_status ← inb .other (← controller device).alt_port
      wait_loop device n alt_status

def waitForIRQ (device : Nat) : M Unit := do
  if (← get).controller_index ≤ device then return
  wait_loop device 256 0
  interrupts
  write (device >>> DEVICE_INFO_SHIFT) (·.block true)

def switchDevice (device : Nat) : M (BitVec 32) := do
  if (← get).controller_index ≤ device then return 0xFFFF
  let base := (← controller device).base_port
  outb (base + ATA_DEVICE_SEL) (.ofNat 8 ((device &&& 0x1) <<< 4))
  let _ ← inb .other (base + ATA_STATUS)
  let _ ← inb .other (base + ATA_STATUS)
  let _ ← inb .other (base + ATA_STATUS)
  let _ ← inb .other (base + ATA_STATUS)
  modify (·.set_current device)
  return base

/-! ## Registration -/

/-- What the two `initDevice` calls of `ide_init` find, and the record as `kmalloc` returns it. -/
structure Probe where
  slave : InterfaceType
  master : InterfaceType
  lba48_feature_set_support : Bool
  fresh : AtaDevice

/-- `ide_init` on the controller table, for one outcome of the identification. -/
def ide_init (m : Machine) (base_port alt_port : BitVec 32) (p : Probe) : Nat × Machine :=
  if base_port = 0 ∨ alt_port = 0 then (ATA_DEVICE_INVALID, m)
  else
    let result_master := if p.slave ≠ .INVALID then p.slave else p.master
    if result_master ≠ .INVALID then
      let packet := result_master = .ATAPI ∨ result_master = .SATAPI
      let device := { p.fresh with
        base_port := base_port
        alt_port := alt_port
        interface_type := result_master
        lba48_support := if packet then p.fresh.lba48_support else p.lba48_feature_set_support
        in_use := false
        is_blocked := true }
      (m.controller_index, { m with
        controller_index := m.controller_index + 2
        controllers := some (m.controllers.getD [] ++ [device]) })
    else (ATA_DEVICE_INVALID, m)

end Condor.Ata
