import Condor.Ata.Source

/-!
# Identification

`ide_init` with its two probes. A probe is a run on what the ports answer; what
it puts at its destination is part of its result, since nothing is read back
from there before both probes are through. The slave is probed first, and the
master's block, if it has one, goes over the slave's.
-/

namespace Condor.Ata.Identify

open Lib Lib.Prog

def ATA_IDENTIFY_DEVICE : BitVec 8 := 0xEC
def ATA_IDENTIFY_PACKET_DEVICE : BitVec 8 := 0xA1

/-- What the ports will answer, and what has been done with them. -/
structure Bus where
  responses : List (BitVec 16)
  log : List Access

def Bus.append_log (b : Bus) (a : Access) : Bus := { b with log := b.log ++ [a] }

abbrev B := Prog Stop Bus

/-! ## Ports -/

def respond : B (BitVec 16) := do
  match (← get).responses with
  | [] => stop .pending
  | v :: vs => do
    modify fun b => { b with responses := vs }
    pure v

def inb (address : BitVec 32) : B (BitVec 8) := do
  let v ← respond
  modify (·.append_log (.inb .other (port address) (v.setWidth 8)))
  pure (v.setWidth 8)

def inw (address : BitVec 32) : B (BitVec 16) := do
  let v ← respond
  modify (·.append_log (.inw (port address) v))
  pure v

def outb (address : BitVec 32) (v : BitVec 8) : B Unit := modify (·.append_log (.outb (port address) v))

def outw (address : BitVec 32) (v : BitVec 16) : B Unit := modify (·.append_log (.outw (port address) v))

/-- A loop whose turns all read a port. -/
def loop {α β : Type} (body : α → B (α ⊕ β)) (a : α) : B β := do
  iterate body .pending ((← get).responses.length + 1) a

/-! ## Probes -/

/-- What a probe finds: the type it returns, and the words it puts at its destination, if it does. -/
structure Found where
  type : InterfaceType
  block : Option (List (BitVec 16))
  deriving DecidableEq, Repr

def read_words (base : BitVec 32) : Nat → B (List (BitVec 16))
  | 0 => pure []
  | n + 1 => do
    let w ← inw base
    let ws ← read_words base n
    pure (w :: ws)

def getDeviceData (base : BitVec 32) : B (List (BitVec 16)) := read_words base 256

def detectDriveType (base_port : BitVec 32) : B InterfaceType := do
  let cylMid ← inb (base_port + ATA_LBAMI)
  let cylHigh ← inb (base_port + ATA_LBAHI)
  if cylMid = 0x14 ∧ cylHigh = 0xEB then return .ATAPI
  if cylMid = 0x69 ∧ cylHigh = 0x96 then return .SATAPI
  if cylMid = 0x3c ∧ cylHigh = 0xc3 then return .SATA
  if cylMid = 0x00 ∧ cylHigh = 0x00 then return .ATA
  return .INVALID

/-- One turn of a wait for BSY to clear. -/
def busy (base_port : BitVec 32) (_ : Unit) : B (Unit ⊕ Unit) := do
  if (← inb (base_port + ATA_STATUS)) &&& 0x80 ≠ 0 then return .inl ()
  return .inr ()

/-- One turn of a wait for DRQ or ERR. -/
def waiting (base_port : BitVec 32) (_ : Unit) : B (Unit ⊕ Unit) := do
  if (← inb (base_port + ATA_STATUS)) &&& (0x08 ||| 0x01) = 0 then return .inl ()
  return .inr ()

/-- The block that has been read, or `none` for `false`. -/
def initDevice_ATAPI (base_port : BitVec 32) : B (Option (List (BitVec 16))) := do
  outb (base_port + ATA_COMMAND) ATA_IDENTIFY_PACKET_DEVICE
  loop (busy base_port) ()
  loop (waiting base_port) ()
  if (← inb (base_port + ATA_STATUS)) &&& 0x01 ≠ 0 then return none
  let words ← getDeviceData base_port
  return some words

/-- `initDevice_ATAPI` behind `&&`. -/
def and_ATAPI (c : Bool) (base_port : BitVec 32) : B (Option (List (BitVec 16))) :=
  if c then initDevice_ATAPI base_port else pure none

/-- One turn of `initDevice` while BSY is set, which may return from it. -/
def busy_turn (base_port : BitVec 32) (devType : InterfaceType) :
    B (InterfaceType ⊕ Found ⊕ InterfaceType) := do
  if (← inb (base_port + ATA_STATUS)) &&& 0x80 = 0 then return .inr (.inr devType)
  let block ← and_ATAPI (devType = .ATAPI) base_port
  if block.isSome then return .inr (.inl ⟨devType, block⟩)
  -- The only type above `ATAPI`.
  if devType = .SATAPI then return .inr (.inl ⟨.INVALID, none⟩)
  let devType ← detectDriveType base_port
  return .inl devType

/-- `initDevice` once BSY is clear. -/
def initDevice_ready (base_port : BitVec 32) (devType : InterfaceType) : B Found := do
  loop (waiting base_port) ()
  let block ← and_ATAPI ((← inb (base_port + ATA_STATUS)) &&& 1 ≠ 0) base_port
  if block.isSome then return ⟨devType, block⟩
  let words ← getDeviceData base_port
  return ⟨devType, some words⟩

def initDevice (base_port alt_port : BitVec 32) (is_slave : Bool) : B Found := do
  if (← inb (base_port + ATA_STATUS)) = 0xFF then return ⟨.INVALID, none⟩
  outb (base_port + ATA_DEVICE_SEL) (if is_slave then 0x10 else 0x00)
  let _ ← inb (base_port + ATA_STATUS)
  let _ ← inb (base_port + ATA_STATUS)
  let _ ← inb (base_port + ATA_STATUS)
  let _ ← inb (base_port + ATA_STATUS)
  let _ ← inw (base_port + ATA_STATUS)
  let _ ← inw (base_port + ATA_STATUS)
  let _ ← inw (base_port + ATA_STATUS)
  let _ ← inw (base_port + ATA_STATUS)
  outb alt_port 0x00
  outw (base_port + ATA_SECT_COUNT) 0x00
  outw (base_port + ATA_LBALO) 0x00
  outw (base_port + ATA_LBAMI) 0x00
  outw (base_port + ATA_LBAHI) 0x00
  outb (base_port + ATA_COMMAND) ATA_IDENTIFY_DEVICE
  if (← inb (base_port + ATA_STATUS)) = 0x00 then return ⟨.INVALID, none⟩
  let devType ← detectDriveType base_port
  match ← loop (busy_turn base_port) devType with
  | .inl found => return found
  | .inr devType => initDevice_ready base_port devType

/-! ## The record -/

/-- `ata_device_t`, without the pointer that nothing sets. -/
structure Device extends AtaDevice where
  dev_id : BitVec 32
  irq : BitVec 8
  is_slave : Bool
  lba_support : BitVec 1
  dma_support : BitVec 1
  ata_version : BitVec 4
  mdma_support : BitVec 2
  udma_support : BitVec 3
  deriving DecidableEq, Repr

/-- The bit of `ata_info_t` at `bit` of the unit `unit`. Its units are those of `uword_t`, into which the
compiler packs the fields of up to thirty-two bits in a row. -/
def info_bit (data : Nat → BitVec 32) (unit bit : Nat) : Nat := (data unit >>> bit &&& 1).toNat

/-- `BIT_SUM16`, whose arguments are not in parentheses where they are used. -/
def BIT_SUM16 (x : Nat) : Nat :=
  (x >>> 8) + (x >>> 7 &&& 1) + 2 * (x >>> 6 &&& 1) + 4 * (x >>> 4 &&& 1) + 7 * (x &&& 1)

/-- What the record has of the drive's block. -/
structure Capabilities where
  lba_support : BitVec 1
  dma_support : BitVec 1
  ata_version : BitVec 4
  mdma_support : BitVec 2
  udma_support : BitVec 3
  lba48_feature_set_support : Bool
  deriving DecidableEq, Repr

def capabilities (data : Nat → BitVec 32) : Capabilities where
  lba_support := .ofNat 1 (info_bit data 31 9)
  dma_support := .ofNat 1 (info_bit data 31 8)
  ata_version := .ofNat 4 (BIT_SUM16 (data 62 >>> 1 &&& 0x7FFF).toNat)
  mdma_support := .ofNat 2 (((List.range 3).map (info_bit data 42)).sum)
  udma_support := .ofNat 3 (((List.range 7).map (info_bit data 67)).sum)
  lba48_feature_set_support := info_bit data 64 26 ≠ 0

def InterfaceType.packet (t : InterfaceType) : Bool := t = .ATAPI ∨ t = .SATAPI

/-- A call, with what the ports answer it and with its two blocks as `kmalloc` returns them. -/
structure Call where
  base_port : BitVec 32
  alt_port : BitVec 32
  irq : BitVec 8
  responses : List (BitVec 16)
  data : Nat → BitVec 32
  device : Device

/-- The two probes of a call, the slave's first. `none` if they have not returned. -/
def Call.probe (c : Call) : Option (Found × Found) :=
  match (initDevice c.base_port c.alt_port true).run ⟨c.responses, []⟩ with
  | (.error _, _) => none
  | (.ok slave, b) =>
    match (initDevice c.base_port c.alt_port false).run b with
    | (.error _, _) => none
    | (.ok master, _) => some (slave, master)

/-- The type that `ide_init` goes by. -/
def result_master (slave master : Found) : InterfaceType :=
  if slave.type ≠ .INVALID then slave.type else master.type

/-- The memory that both probes have been given. -/
def Call.info (c : Call) (slave master : Found) : Nat → BitVec 32 :=
  overwritten (overwritten c.data (slave.block.getD [])) (master.block.getD [])

/-- The record that a call fills in. Its id is the one that the call starts with. -/
def Call.record (c : Call) (slave master : Found) : Device :=
  let type := result_master slave master
  let caps := capabilities (c.info slave master)
  { c.device with
    dev_id := .ofNat 32 ATA_DEVICE_INVALID
    interface_type := type
    lba_support := caps.lba_support
    dma_support := caps.dma_support
    ata_version := caps.ata_version
    udma_support := caps.udma_support
    mdma_support := caps.mdma_support
    lba48_support := if InterfaceType.packet type then c.device.lba48_support else caps.lba48_feature_set_support
    base_port := c.base_port
    alt_port := c.alt_port
    irq := c.irq
    is_slave := false
    in_use := false
    is_blocked := true }

/-! ## The table -/

/-- `controllers` is `none` while it is `POISON_NULL`. -/
structure Table where
  controller_index : Nat
  controllers : Option (List Device)

def Table.start : Table := ⟨0, none⟩

def ide_init (krealloc : List Device → Nat → List Device) (t : Table) (c : Call) : Option (Nat × Table) :=
  if c.base_port = 0 ∨ c.alt_port = 0 then some (ATA_DEVICE_INVALID, t)
  else
    c.probe.map fun (slave, master) =>
      if result_master slave master ≠ .INVALID then
        let device_id := t.controller_index
        let controller_index := t.controller_index + 2
        let controllers := krealloc (t.controllers.getD []) (controller_index >>> 1)
        (device_id, ⟨controller_index, some (controllers.set (device_id >>> 1) (c.record slave master))⟩)
      else (ATA_DEVICE_INVALID, t)

/-- `none` is `POISON_NULL`. -/
def ata_getDeviceInfo (t : Table) (device : Nat) : Option Device :=
  if device = ATA_DEVICE_INVALID ∨ t.controller_index ≤ device then none
  else (t.controllers.getD [])[device >>> DEVICE_INFO_SHIFT]?

/-! ## What a probe finds -/

variable {base_port alt_port : BitVec 32} {devType : InterfaceType}

theorem anything {α : Type} (x : B α) : Triple (fun _ => True) x (fun _ _ => True) fun _ _ => True :=
  (Keeps.of_run (I := fun _ => True) fun _ _ => trivial).returns

/-- A block is one of 256 words. -/
def Sized (block : Option (List (BitVec 16))) : Prop := ∀ words, block = some words → words.length = 256

/-- A drive that is found has put its block at the destination. -/
structure Found.Whole (f : Found) : Prop where
  block : f.type ≠ .INVALID → f.block.isSome
  sized : Sized f.block

theorem Found.whole_silent : Found.Whole ⟨.INVALID, none⟩ :=
  ⟨fun h => absurd rfl h, fun _ h => nomatch h⟩

theorem read_words_length (base : BitVec 32) (n : Nat) : Triple (fun _ => True) (read_words base n)
    (fun words _ => words.length = n) fun _ _ => True := by
  induction n with
  | zero => exact .pure fun _ _ => rfl
  | succ n ih =>
    refine (anything _).bind fun w => ih.bind fun words => .pure fun _ h => ?_
    rw [List.length_cons, h]

theorem initDevice_ATAPI_sized : Triple (fun _ => True) (initDevice_ATAPI base_port)
    (fun block _ => Sized block)
    fun _ _ => True := by
  iterate 4 refine (anything _).bind fun _ => ?_
  refine Triple.ite (fun _ => .pure fun _ _ _ h => nomatch h) fun _ => ?_
  exact (read_words_length _ _).bind fun words => .pure fun _ h _ hw => by cases hw; exact h

theorem and_ATAPI_sized (c : Bool) : Triple (fun _ => True) (and_ATAPI c base_port)
    (fun block _ => Sized block)
    fun _ _ => True :=
  Triple.ite (fun _ => initDevice_ATAPI_sized) fun _ => .pure fun _ _ _ h => nomatch h

theorem busy_turn_whole : Triple (fun _ => True) (busy_turn base_port devType)
    (fun r _ => r.elim (fun _ => True) fun r => r.elim Found.Whole fun _ => True) fun _ _ => True := by
  refine (anything _).bind fun status => Triple.ite (fun _ => .pure fun _ _ => trivial) fun _ => ?_
  refine (and_ATAPI_sized _).bind fun block => Triple.ite
    (fun hb => .pure fun _ hs => ⟨fun _ => hb, hs⟩) fun _ => ?_
  refine Triple.ite (fun _ => .pure fun _ _ => Found.whole_silent) fun _ => ?_
  exact ((anything _).before fun _ _ => trivial).bind fun _ => .pure fun _ _ => trivial

theorem initDevice_ready_whole : Triple (fun _ => True) (initDevice_ready base_port devType)
    (fun f _ => f.Whole) fun _ _ => True := by
  refine (anything _).bind fun _ => (anything _).bind fun status =>
    (and_ATAPI_sized _).bind fun block => ?_
  refine Triple.ite (fun hb => .pure fun _ hs => ⟨fun _ => hb, hs⟩) fun _ => ?_
  refine ((read_words_length _ _).before fun _ _ => trivial).bind fun words => .pure fun _ h => ?_
  exact ⟨fun _ => rfl, fun _ hw => by cases hw; exact h⟩

theorem initDevice_whole (is_slave : Bool) : Triple (fun _ => True)
    (initDevice base_port alt_port is_slave)
    (fun f _ => f.Whole) fun _ _ => True := by
  refine (anything _).bind fun _ => Triple.ite (fun _ => .pure fun _ _ => Found.whole_silent) fun _ => ?_
  iterate 15 refine (anything _).bind fun _ => ?_
  refine (anything _).bind fun _ => Triple.ite (fun _ => .pure fun _ _ => Found.whole_silent) fun _ => ?_
  refine (anything _).bind fun devType => ?_
  have hloop : Triple (fun _ => True) (loop (busy_turn base_port) devType)
      (fun r _ => r.elim Found.Whole fun _ => True) fun _ _ => True := by
    refine Triple.get.bind fun b => ?_
    refine (Triple.iterate (I := fun _ _ => True) (fun devType => ?_) (fun _ _ _ => trivial) _ _).before
      fun _ _ => trivial
    exact busy_turn_whole.after fun r _ h => by cases r <;> exact h
  refine hloop.bind fun r => ?_
  cases r with
  | inl found => exact .pure fun _ h => h
  | inr devType => exact initDevice_ready_whole.before fun _ _ => trivial

theorem Call.probe_whole {c : Call} {slave master : Found} (h : c.probe = some (slave, master)) :
    slave.Whole ∧ master.Whole := by
  unfold Call.probe at h
  split at h
  · cases h
  · rename_i hslave
    split at h
    · cases h
    · rename_i hmaster
      cases h
      exact ⟨(initDevice_whole true).ok trivial hslave, (initDevice_whole false).ok trivial hmaster⟩

end Condor.Ata.Identify
