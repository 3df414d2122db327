import Condor.Ata.Quiet

/-!
# The task file

What the drive gets to see of a command: the last two values written to the
count and address registers, and the device register. A command of the 48-bit
set is decoded from both values of each register, one of the 28-bit set from
the last values and the low bits of the device register.
-/

namespace Condor.Ata

open Lib Lib.Prog

/-! ## The drive -/

/-- A register two deep. -/
structure Deep where
  last : BitVec 8
  previous : BitVec 8

def Deep.push (r : Deep) (v : BitVec 8) : Deep := ⟨v, r.last⟩

/-- The registers of a drive. -/
structure TaskFile where
  count : Deep
  lo : Deep
  mid : Deep
  hi : Deep
  device : BitVec 8

def TaskFile.write (t : TaskFile) (base : BitVec 32) (w : BitVec 16 × BitVec 8) : TaskFile :=
  if w.1 = port (base + ATA_SECT_COUNT) then { t with count := t.count.push w.2 }
  else if w.1 = port (base + ATA_LBALO) then { t with lo := t.lo.push w.2 }
  else if w.1 = port (base + ATA_LBAMI) then { t with mid := t.mid.push w.2 }
  else if w.1 = port (base + ATA_LBAHI) then { t with hi := t.hi.push w.2 }
  else if w.1 = port (base + ATA_DEVICE_SEL) then { t with device := w.2 }
  else t

/-- The sectors that a command is about, on the drive that it is for. -/
structure Request where
  slave : Bool
  lba : Nat
  count : Nat
  deriving DecidableEq, Repr

/-- What the drive makes of a read or write command. -/
def TaskFile.decode (t : TaskFile) (command : BitVec 8) : Option Request :=
  let slave := t.device.getLsbD 4
  let low := t.lo.last.toNat + 2 ^ 8 * t.mid.last.toNat + 2 ^ 16 * t.hi.last.toNat
  if command = ATA_READ_SECTORS ∨ command = ATA_WRITE_SECTORS then
    some ⟨slave, low + 2 ^ 24 * (t.device.toNat % 16), t.count.last.toNat⟩
  else if command = ATA_READ_SECTORS_EXT ∨ command = ATA_WRITE_SECTORS_EXT then
    some ⟨slave, low + 2 ^ 24 * t.lo.previous.toNat + 2 ^ 32 * t.mid.previous.toNat +
      2 ^ 40 * t.hi.previous.toNat, t.count.last.toNat + 2 ^ 8 * t.count.previous.toNat⟩
  else none

/-- The writes of bytes to ports. -/
def writes (log : List Access) : List (BitVec 16 × BitVec 8) :=
  log.filterMap fun
    | .outb p v => some (p, v)
    | _ => none

/-- The first command of a list of writes, and the task file it is issued with. -/
def issued (base : BitVec 32) (t : TaskFile) : List (BitVec 16 × BitVec 8) → Option (BitVec 8 × TaskFile)
  | [] => none
  | w :: ws => if w.1 = port (base + ATA_COMMAND) then some (w.2, t) else issued base (t.write base w) ws

/-! ## What is written -/

variable {m : Machine} {d : AtaDevice} {device : Nat} {lba : BitVec 64} {sector_count : BitVec 8}

/-! ## The writes of a command -/

@[simp] theorem writes_append (l l' : List Access) : writes (l ++ l') = writes l ++ writes l' :=
  List.filterMap_append

/-- `k` of the writes `ws` have been made, on a device of configuration `c`. -/
structure Made (i : Nat) (c : Config) (ws : List (BitVec 16 × BitVec 8)) (k : Nat) (m : Machine) :
    Prop where
  config : HasConfig i c m
  writes : writes m.log = ws.take k

/-- Some of the writes `ws` have been made, but not all. -/
def Cut (ws : List (BitVec 16 × BitVec 8)) (m : Machine) : Prop :=
  ∃ k < ws.length, Ata.writes m.log = ws.take k

variable {ws : List (BitVec 16 × BitVec 8)} {i k : Nat} {c : Config} {a base : BitVec 32}

theorem inert_writes (C : List (BitVec 16 × BitVec 8) → Prop) : Inert fun m => C (writes m.log) :=
  .of_log (fun l => C (writes l)) fun l w p v _ hl => by
    rw [writes_append]
    exact (List.append_nil (writes l)).symm ▸ hl

theorem inert_made : Inert (Made i c ws k) := by
  have h := (inert_hasConfig i c).and (inert_writes fun l => l = ws.take k)
  have heq : Made i c ws k = fun m => HasConfig i c m ∧ writes m.log = ws.take k :=
    funext fun m => propext ⟨fun h => ⟨h.1, h.2⟩, fun h => ⟨h.1, h.2⟩⟩
  rw [heq]
  exact h

theorem Made.cut (h : Made i c ws k m) (hk : k < ws.length) : Cut ws m := ⟨k, hk, h.writes⟩

theorem Made.append {p : BitVec 16} {v : BitVec 8} (h : Made i c ws k m) (hw : ws[k]? = some (p, v)) :
    Made i c ws (k + 1) (m.append_log (.outb p v)) := by
  obtain ⟨hlt, hget⟩ := List.getElem?_eq_some_iff.mp hw
  have hstep : Ata.writes [Access.outb p v] = [(p, v)] := rfl
  refine ⟨h.config, ?_⟩
  rw [Machine.append_log, writes_append, h.writes, hstep, List.take_succ_eq_append_getElem hlt, hget]

theorem outb_made {v : BitVec 8} (h : ws[k]? = some (port a, v)) :
    Triple (Made i c ws k) (outb a v) (fun _ => Made i c ws (k + 1)) fun _ => Cut ws := by
  have hlt : k < ws.length := (List.getElem?_eq_some_iff.mp h).1
  exact (inert_made.calm.outb fun m hm => hm.append h).stops fun _ _ hm => hm.cut hlt

/-- The writes of `outbs`. -/
def byte_writes (base : BitVec 32) (l : List (BitVec 32 × BitVec 8)) : List (BitVec 16 × BitVec 8) :=
  l.map fun w => (port (base + w.1), w.2)

theorem outbs_made {l : List (BitVec 32 × BitVec 8)} (h : ws.drop k = byte_writes base l) :
    Triple (Made i c ws k) (outbs base l) (fun _ => Made i c ws ws.length) fun _ => Cut ws := by
  induction l generalizing k with
  | nil =>
    refine Triple.pure fun m hm => ⟨hm.config, ?_⟩
    rw [hm.writes, List.take_of_length_le (List.drop_eq_nil_iff.mp h), List.take_length]
  | cons w l ih =>
    have hget : ws[k]? = some (port (base + w.1), w.2) := by
      rw [← List.head?_drop, h]
      rfl
    refine (outb_made hget).bind fun _ => ih ?_
    rw [← List.drop_drop, h]
    rfl

/-- The value by which `switchDevice` selects the drive. -/
def select (device : Nat) : BitVec 8 := .ofNat 8 ((device &&& 0x1) <<< 4)

theorem switchDevice_made (hd : m.record (device >>> DEVICE_INFO_SHIFT) = some d)
    (hlt : device < m.controller_index) (hlog : m.log = [])
    (hw : ws[0]? = some (port (d.base_port + ATA_DEVICE_SEL), select device)) (hlen : 1 < ws.length) :
    Triple (· = m) (switchDevice device)
      (fun base m' => base = d.base_port ∧ Made (device >>> DEVICE_INFO_SHIFT) d.config ws 1 m')
      fun _ => Cut ws := by
  have hstart : Made (device >>> DEVICE_INFO_SHIFT) d.config ws 0 m := ⟨⟨d, hd, rfl⟩, by rw [hlog]; rfl⟩
  have hswitch := switchDevice_selects hd hlt inert_made.calm inert_made.calm hstart fun m' h =>
    h.append hw
  refine hswitch.stops fun _ m' h => ?_
  rcases h with h | h
  · exact h.cut (Nat.lt_of_succ_lt hlen)
  · exact h.cut hlen

/-- The writes up to a command, as ports and values. -/
def command_writes (d : AtaDevice) (device : Nat) (lba : BitVec 64)
    (sector_count cmd48 cmd28 : BitVec 8) :
    List (BitVec 16 × BitVec 8) :=
  (port (d.base_port + ATA_DEVICE_SEL), select device) ::
    byte_writes d.base_port (task_file device lba sector_count d.lba48_support cmd48 cmd28)

variable {cmd48 cmd28 : BitVec 8} {rest : BitVec 32 → M Bool}

theorem ata_issue_made (hlt : 1 < ws.length)
    (hw : ws.drop 1 = byte_writes base (task_file device lba sector_count c.lba48_support cmd48 cmd28)) :
    Triple (Made (device >>> DEVICE_INFO_SHIFT) c ws 1)
      (ata_issue device base lba sector_count cmd48 cmd28)
      (fun _ => Made (device >>> DEVICE_INFO_SHIFT) c ws ws.length) fun _ => Cut ws := by
  have hcut (m : Machine) (hm : Made (device >>> DEVICE_INFO_SHIFT) c ws 1 m) : Cut ws m := hm.cut hlt
  refine Triple.bind (write_spec (fun m d hd hm => ⟨hm.config.set_record hd rfl, hm.writes⟩) hcut)
    fun _ =>
    Triple.bind (record_spec hcut) fun d => ?_
  refine Triple.assume (fun m hm => hm.2.config.eq hm.1) fun hc => ?_
  have hlba : d.lba48_support = c.lba48_support := congrArg Config.lba48_support hc
  rw [hlba]
  exact (outbs_made hw).weaken (fun _ h => h.2) (fun _ _ h => h) fun _ _ h => h

/-- What has been written when a request of a registered device ends: all of its command, if the
request `can` be issued, or less than that and then it has not succeeded. -/
def Ended (ws : List (BitVec 16 × BitVec 8)) (can : Prop) (r : Except Stop Bool) (m : Machine) : Prop :=
  (Cut ws m ∧ r ≠ .ok true) ∨ (can ∧ ws <+: writes m.log)

theorem steady_writes (ws : List (BitVec 16 × BitVec 8)) : Steady fun m => ws <+: writes m.log :=
  .of_log (fun l => ws <+: writes l) fun l a h => by
    rw [writes_append]
    exact h.trans (List.prefix_append _ _)

theorem byte_writes_length (l : List (BitVec 32 × BitVec 8)) : (byte_writes base l).length = l.length :=
  List.length_map ..

theorem ata_start_ended (lba : BitVec 64) (sector_count cmd48 cmd28 : BitVec 8)
    (hd : m.record (device >>> DEVICE_INFO_SHIFT) = some d)
    (hlt : device < m.controller_index) (hlog : m.log = [])
    (hrest : ∀ I base, Steady I → Keeps I (rest base)) :
    Ended (command_writes d device lba sector_count cmd48 cmd28)
      (¬ Refused d device lba sector_count ∧ d.base_port ≠ 0)
      ((ata_start device lba sector_count cmd48 cmd28 rest).run m).1
      ((ata_start device lba sector_count cmd48 cmd28 rest).run m).2 := by
  have hlen : 1 < (command_writes d device lba sector_count cmd48 cmd28).length := by
    simp [command_writes, byte_writes_length, task_file]
  have hstop (e : Stop) (m' : Machine) (h : Cut (command_writes d device lba sector_count cmd48 cmd28) m') :
      Ended (command_writes d device lba sector_count cmd48 cmd28)
        (¬ Refused d device lba sector_count ∧ d.base_port ≠ 0) (.error e) m' := .inl ⟨h, nofun⟩
  apply ata_start_parts hd (P := Made _ _ _ _) (I := fun m' =>
    command_writes d device lba sector_count cmd48 cmd28 <+: writes m'.log)
  · exact fun _ => .inl ⟨⟨0, by omega, by rw [hlog]; rfl⟩, nofun⟩
  · exact (switchDevice_made hd hlt hlog rfl hlen).stops hstop
  · exact fun _ m' hm => .inl ⟨hm.cut hlen, nofun⟩
  · intro _ _
    refine ((ata_issue_made hlen rfl).stops hstop).after fun _ m' hm => ?_
    rw [hm.writes, List.take_length]
  · intro href hne
    refine (hrest _ _ (steady_writes (command_writes d device lba sector_count cmd48 cmd28))).weaken
      (fun _ h => h) (fun _ _ h => .inr ⟨⟨href, hne⟩, h⟩) fun _ _ h => .inr ⟨⟨href, hne⟩, h⟩

/-- A request that is not refused gets to its command if its reads are answered. -/
theorem ata_start_issues {w : Nat} (lba : BitVec 64) (sector_count cmd48 cmd28 : BitVec 8)
    (hq : Quiet device d w [0, 0, 0, 0] m) (hlog : m.log = [])
    (href : ¬ Refused d device lba sector_count)
    (hbase : d.base_port ≠ 0) (hrest : ∀ I base, Steady I → Keeps I (rest base)) :
    command_writes d device lba sector_count cmd48 cmd28 <+:
      writes ((ata_start device lba sector_count cmd48 cmd28 rest).run m).2.log := by
  have hlen : 1 < (command_writes d device lba sector_count cmd48 cmd28).length := by
    simp [command_writes, byte_writes_length, task_file]
  have hissue : Total (Quiet device d w []) (ata_issue device d.base_port lba sector_count cmd48 cmd28)
    fun _ => Quiet device (d.use true) w [] := ata_issue_total
  obtain ⟨_, m1, h1, rfl, hq1⟩ := switchDevice_total.run hq
  obtain ⟨-, hm1⟩ := (switchDevice_made hq.record hq.lt hlog rfl hlen).ok rfl h1
  obtain ⟨_, m2, h2, -⟩ := hissue.run hq1
  have hm2 := (ata_issue_made hlen rfl).ok hm1 h2
  have hsteady := steady_writes (command_writes d device lba sector_count cmd48 cmd28)
  have hkeep := (hrest _ d.base_port hsteady).run (s := m2) (by rw [hm2.writes, List.take_length])
  unfold ata_start
  rw [bind_ok (ata_refuses_run hq.record), if_neg (by simpa using href), bind_ok h1, if_neg hbase,
    bind_ok h2]
  exact hkeep

/-! ## What the drive decodes -/

theorem port_eq_iff {x y : BitVec 32} : port (base + x) = port (base + y) ↔
    x.setWidth 16 = y.setWidth 16 := by
  unfold port
  rw [BitVec.setWidth_add _ _ (by omega), BitVec.setWidth_add _ _ (by omega)]
  exact add_right_inj _

/-- Before the command the registers are written. -/
theorem issued_append {t : TaskFile} {pre l : List (BitVec 16 × BitVec 8)}
    (h : ∀ w ∈ pre, w.1 ≠ port (base + ATA_COMMAND)) :
    issued base t (pre ++ l) = issued base (pre.foldl (TaskFile.write · base) t) l := by
  induction pre generalizing t with
  | nil => rfl
  | cons w pre ih =>
    obtain ⟨hw, hpre⟩ := List.forall_mem_cons.mp h
    rw [List.cons_append, issued, if_neg hw, ih hpre, List.foldl_cons]

/-- The writes before the command. -/
def register_writes (d : AtaDevice) (device : Nat) (lba : BitVec 64) (sector_count : BitVec 8) :
    List (BitVec 16 × BitVec 8) :=
  (command_writes d device lba sector_count 0 0).dropLast

/-- The task file that a command is issued with. -/
def taskOf (d : AtaDevice) (device : Nat) (lba : BitVec 64) (sector_count : BitVec 8) (t : TaskFile) :
    TaskFile where
  count := t.count.push sector_count
  lo := if d.lba48_support then ⟨lba_byte lba 0, lba_byte lba 24⟩ else t.lo.push (lba_byte lba 0)
  mid := if d.lba48_support then ⟨lba_byte lba 8, lba_byte lba 32⟩ else t.mid.push (lba_byte lba 8)
  hi := if d.lba48_support then ⟨lba_byte lba 16, lba_byte lba 40⟩ else t.hi.push (lba_byte lba 16)
  device := if d.lba48_support then drive_bit device ||| 0x40
    else (lba_byte lba 24 &&& 0xF) ||| drive_bit device ||| 0x40

theorem command_writes_eq : command_writes d device lba sector_count cmd48 cmd28 =
    register_writes d device lba sector_count ++
      [(port (d.base_port + ATA_COMMAND), if d.lba48_support then cmd48 else cmd28)] := by
  unfold register_writes command_writes task_file
  cases d.lba48_support <;> rfl

theorem register_writes_ne : ∀ w ∈ register_writes d device lba sector_count,
    w.1 ≠ port (d.base_port + ATA_COMMAND) := by
  have hne {x : BitVec 32} (hx : x.setWidth 16 ≠ ATA_COMMAND.setWidth 16) :
      port (d.base_port + x) ≠ port (d.base_port + ATA_COMMAND) := mt port_eq_iff.mp hx
  have h2 := hne (x := ATA_SECT_COUNT) (by decide)
  have h3 := hne (x := ATA_LBALO) (by decide)
  have h4 := hne (x := ATA_LBAMI) (by decide)
  have h5 := hne (x := ATA_LBAHI) (by decide)
  have h6 := hne (x := ATA_DEVICE_SEL) (by decide)
  unfold register_writes command_writes task_file
  cases d.lba48_support
  · exact List.forall_mem_cons.mpr ⟨h6, List.forall_mem_cons.mpr ⟨h2, List.forall_mem_cons.mpr ⟨h3,
      List.forall_mem_cons.mpr ⟨h4, List.forall_mem_cons.mpr ⟨h5, List.forall_mem_cons.mpr ⟨h6, nofun⟩⟩⟩⟩⟩⟩
  · refine List.forall_mem_cons.mpr ⟨h6, List.forall_mem_cons.mpr ⟨h2, ?_⟩⟩
    refine List.forall_mem_cons.mpr ⟨h3, List.forall_mem_cons.mpr ⟨h4, List.forall_mem_cons.mpr ⟨h5, ?_⟩⟩⟩
    exact List.forall_mem_cons.mpr ⟨h3, List.forall_mem_cons.mpr ⟨h4, List.forall_mem_cons.mpr ⟨h5,
      List.forall_mem_cons.mpr ⟨h6, nofun⟩⟩⟩⟩

theorem register_writes_foldl (t : TaskFile) :
    (register_writes d device lba sector_count).foldl (TaskFile.write · d.base_port) t =
      taskOf d device lba sector_count t := by
  unfold register_writes command_writes task_file taskOf
  cases d.lba48_support <;>
    simp [byte_writes, TaskFile.write, port_eq_iff, ATA_SECT_COUNT, ATA_LBALO, ATA_LBAMI, ATA_LBAHI,
      ATA_DEVICE_SEL, Deep.push]

theorem issued_none {l : List (BitVec 16 × BitVec 8)} {t : TaskFile}
    (h : ∀ w ∈ l, w.1 ≠ port (base + ATA_COMMAND)) : issued base t l = none := by
  have hl := issued_append (t := t) (l := []) h
  rw [List.append_nil] at hl
  exact hl

/-- A command that is not written whole is not issued. -/
theorem issued_take {t : TaskFile} (hk : k < (command_writes d device lba sector_count cmd48 cmd28).length) :
    issued d.base_port t ((command_writes d device lba sector_count cmd48 cmd28).take k) = none := by
  rw [command_writes_eq] at hk ⊢
  have hle : k ≤ (register_writes d device lba sector_count).length := by
    rw [List.length_append, List.length_singleton] at hk
    exact Nat.le_of_lt_succ hk
  rw [List.take_append_of_le_length hle]
  exact issued_none fun w hw => register_writes_ne w (List.mem_of_mem_take hw)

theorem issued_command_writes {t : TaskFile} {l : List (BitVec 16 × BitVec 8)}
    (h : command_writes d device lba sector_count cmd48 cmd28 <+: l) :
    issued d.base_port t l =
      some (if d.lba48_support then cmd48 else cmd28, taskOf d device lba sector_count t) := by
  obtain ⟨l', rfl⟩ := h
  rw [command_writes_eq, List.append_assoc, issued_append register_writes_ne, register_writes_foldl]
  exact if_pos rfl

theorem drive_bit_cases (device : Nat) : drive_bit device = 0x00 ∨ drive_bit device = 0x20 := by
  have hbit : device &&& 1 = device % 2 := Nat.and_one_is_mod device
  unfold drive_bit
  rw [hbit]
  rcases Nat.mod_two_eq_zero_or_one device with h | h
  · exact .inl (by rw [h]; rfl)
  · exact .inr (by rw [h]; rfl)

/-- The drive bit is not where the drive looks for it. -/
theorem drive_bit_getLsbD (device : Nat) : (drive_bit device).getLsbD 4 = false := by
  rcases drive_bit_cases device with h | h <;> rw [h] <;> rfl

theorem low_nibble (x : BitVec 8) :
    ((x &&& 0xF) ||| drive_bit device ||| 0x40).toNat % 16 = x.toNat % 16 := by
  have hmask : (0xF : BitVec 8).setWidth 4 = BitVec.allOnes 4 := rfl
  have hdrive : (drive_bit device).setWidth 4 = 0#4 := by
    rcases drive_bit_cases device with h | h <;> rw [h] <;> rfl
  have hlba : (0x40 : BitVec 8).setWidth 4 = 0#4 := rfl
  have hmod (y : BitVec 8) : y.toNat % 16 = (y.setWidth 4).toNat := (BitVec.toNat_setWidth 4 y).symm
  rw [hmod, hmod, BitVec.setWidth_or, BitVec.setWidth_or,
    BitVec.setWidth_and, hmask, hdrive, hlba, BitVec.and_allOnes, BitVec.or_zero, BitVec.or_zero]

/-- The commands of a read or those of a write. -/
inductive Commands : BitVec 8 → BitVec 8 → Prop
  | read : Commands ATA_READ_SECTORS_EXT ATA_READ_SECTORS
  | write : Commands ATA_WRITE_SECTORS_EXT ATA_WRITE_SECTORS

theorem decode_cmd48 {t : TaskFile} {command : BitVec 8} (hl : d.lba48_support = true)
    (hne : ¬ (command = ATA_READ_SECTORS ∨ command = ATA_WRITE_SECTORS))
    (h48 : command = ATA_READ_SECTORS_EXT ∨ command = ATA_WRITE_SECTORS_EXT) :
    (taskOf d device lba sector_count t).decode command =
      some ⟨false, lba.toNat % 2 ^ 48, sector_count.toNat + 2 ^ 8 * t.count.last.toNat⟩ := by
  have hslave : (drive_bit device ||| 0x40).getLsbD 4 = false := by
    rw [BitVec.getLsbD_or, drive_bit_getLsbD]
    rfl
  have hlba : lba.toNat / 2 ^ 0 % 2 ^ 8 + 2 ^ 8 * (lba.toNat / 2 ^ 8 % 2 ^ 8) +
      2 ^ 16 * (lba.toNat / 2 ^ 16 % 2 ^ 8) + 2 ^ 24 * (lba.toNat / 2 ^ 24 % 2 ^ 8) +
      2 ^ 32 * (lba.toNat / 2 ^ 32 % 2 ^ 8) + 2 ^ 40 * (lba.toNat / 2 ^ 40 % 2 ^ 8) =
      lba.toNat % 2 ^ 48 := by omega
  simp only [taskOf, hl, if_true, TaskFile.decode, if_neg hne, if_pos h48, hslave, lba_byte_toNat, hlba,
    Deep.push]

theorem decode_cmd28 {t : TaskFile} {command : BitVec 8} (hl : d.lba48_support = false)
    (h28 : command = ATA_READ_SECTORS ∨ command = ATA_WRITE_SECTORS) :
    (taskOf d device lba sector_count t).decode command =
      some ⟨false, lba.toNat % 2 ^ 28, sector_count.toNat⟩ := by
  have hslave : ((lba_byte lba 24 &&& 0xF) ||| drive_bit device ||| 0x40).getLsbD 4 = false := by
    rw [BitVec.getLsbD_or, BitVec.getLsbD_or, BitVec.getLsbD_and, drive_bit_getLsbD]
    exact Bool.or_eq_false_iff.mpr ⟨Bool.or_eq_false_iff.mpr ⟨Bool.and_false _, rfl⟩, rfl⟩
  have hlba : lba.toNat / 2 ^ 0 % 2 ^ 8 + 2 ^ 8 * (lba.toNat / 2 ^ 8 % 2 ^ 8) +
      2 ^ 16 * (lba.toNat / 2 ^ 16 % 2 ^ 8) + 2 ^ 24 * (lba.toNat / 2 ^ 24 % 2 ^ 8 % 16) =
      lba.toNat % 2 ^ 28 := by omega
  simp only [taskOf, hl, Bool.false_eq_true, if_false, TaskFile.decode, if_pos h28, hslave, Deep.push,
    low_nibble, lba_byte_toNat, hlba]

/-- What the drive makes of the command: never one for the slave, and without the bits of the
address that it has no room for. -/
theorem decode_taskOf (h : Commands cmd48 cmd28) (t : TaskFile) :
    (taskOf d device lba sector_count t).decode (if d.lba48_support then cmd48 else cmd28) =
      some (if d.lba48_support then
        ⟨false, lba.toNat % 2 ^ 48, sector_count.toNat + 2 ^ 8 * t.count.last.toNat⟩
        else ⟨false, lba.toNat % 2 ^ 28, sector_count.toNat⟩) := by
  cases hl : d.lba48_support with
  | true =>
    cases h with
    | read => exact decode_cmd48 hl (by decide) (.inl rfl)
    | write => exact decode_cmd48 hl (by decide) (.inr rfl)
  | false =>
    cases h with
    | read => exact decode_cmd28 hl (.inl rfl)
    | write => exact decode_cmd28 hl (.inr rfl)

/-! ## The request that is issued -/

/-- The call does not return true and issues no command, or the drive decodes its first command as
the one for the addressed drive, the address and the count. -/
def Addresses (x : M Bool) (m : Machine) (d : AtaDevice) (t : TaskFile) (device : Nat) (lba : BitVec 64)
    (sector_count : BitVec 8) : Prop :=
  match issued d.base_port t (writes (x.run m).2.log) with
  | none => (x.run m).1 ≠ .ok true
  | some (command, t') => t'.decode command = some ⟨device % 2 = 1, lba.toNat, sector_count.toNat⟩

/-- The drive can be told of the request: it is for the master, the command has room for the
address, and the byte that the drive takes for the high one of the count is zero. -/
def Fits (d : AtaDevice) (t : TaskFile) (device : Nat) (lba : BitVec 64) : Prop :=
  device % 2 = 0 ∧ if d.lba48_support then t.count.last = 0 ∧ lba.toNat < 2 ^ 48 else lba.toNat < 2 ^ 28

theorem decode_eq_iff (h : Commands cmd48 cmd28) (t : TaskFile) :
    (taskOf d device lba sector_count t).decode (if d.lba48_support then cmd48 else cmd28) =
      some ⟨device % 2 = 1, lba.toNat, sector_count.toNat⟩ ↔ Fits d t device lba := by
  have hmaster : false = decide (device % 2 = 1) ↔ device % 2 = 0 := by
    rw [eq_comm, decide_eq_false_iff_not]
    omega
  rw [decode_taskOf h, Fits, Option.some_inj]
  cases d.lba48_support with
  | true =>
    have hcount : t.count.last = 0 ↔ t.count.last.toNat = 0 := BitVec.toNat_inj.symm
    simp only [if_true, Request.mk.injEq, hcount, hmaster]
    omega
  | false =>
    simp only [Bool.false_eq_true, if_false, Request.mk.injEq, hmaster, and_true]
    omega

theorem ata_start_addresses (h : Commands cmd48 cmd28)
    (hd : m.record (device >>> DEVICE_INFO_SHIFT) = some d)
    (hlt : device < m.controller_index) (hlog : m.log = []) (t : TaskFile)
    (hrest : ∀ I base, Steady I → Keeps I (rest base)) :
    (∀ responses arrivals, Addresses (ata_start device lba sector_count cmd48 cmd28 rest)
      ((m.set_responses responses).set_arrivals arrivals) d t device lba sector_count) ↔
      Refused d device lba sector_count ∨ d.base_port = 0 ∨ Fits d t device lba := by
  constructor
  · intro haddr
    by_contra hc
    obtain ⟨href, hbase, hfits⟩ := by simpa only [not_or] using hc
    -- No interrupt arrives and the reads of `switchDevice` are answered.
    have hq : Quiet device d (words m.log) [0, 0, 0, 0]
      ((m.set_responses [0, 0, 0, 0]).set_arrivals []) := ⟨rfl, rfl, hd, hlt, rfl⟩
    have hw := ata_start_issues lba sector_count cmd48 cmd28 hq hlog href hbase hrest
    have hm := haddr [0, 0, 0, 0] []
    rw [Addresses, issued_command_writes hw] at hm
    exact hfits ((decode_eq_iff h t).mp hm)
  · intro hc responses arrivals
    have hended := ata_start_ended (m := (m.set_responses responses).set_arrivals arrivals) lba sector_count cmd48
      cmd28 hd hlt hlog hrest
    unfold Addresses
    rcases hended with ⟨⟨k, hk, hw⟩, hr⟩ | ⟨⟨href, hbase⟩, hw⟩
    · rw [hw, issued_take hk]
      exact hr
    · rw [issued_command_writes hw]
      apply (decode_eq_iff h t).mpr
      exact (hc.resolve_left href).resolve_left hbase

/-- A controller without 48-bit commands, at the usual ports. -/
def primary : AtaDevice := ⟨0x1F0, 0x3F6, .ATA, false, 0, false, true, false, 0⟩

def primary_found : Machine := ⟨2, some [primary], 0, [], [], fun _ => 0, []⟩

/-- **Task files.** When an ATA request is issued as the one that was asked for, whatever the ports
answer and whenever interrupts arrive: if the device is a master, the address fits, and the last
request of the drive wrote a sector count of zero. -/
theorem addresses_iff (hd : m.record (device >>> DEVICE_INFO_SHIFT) = some d)
    (hlt : device < m.controller_index) (hlog : m.log = []) (t : TaskFile) (lba : BitVec 64)
    (sector_count : BitVec 8) :
    ((∀ responses arrivals, Addresses (ata_readSectors device lba sector_count)
        ((m.set_responses responses).set_arrivals arrivals) d t device lba sector_count) ↔
      Refused d device lba sector_count ∨ d.base_port = 0 ∨ Fits d t device lba) ∧
    ((∀ responses arrivals, Addresses (ata_writeSectors device lba sector_count)
        ((m.set_responses responses).set_arrivals arrivals) d t device lba sector_count) ↔
      Refused d device lba sector_count ∨ d.base_port = 0 ∨ Fits d t device lba) := by
  constructor
  · apply ata_start_addresses .read hd hlt hlog t
    intro I base hI
    exact hI.read_rest base
  · apply ata_start_addresses .write hd hlt hlog t
    intro I base hI
    exact hI.write_rest base

theorem addresses_master :
    Addresses (ata_readSectors 0 5 1)
      ((primary_found.set_responses [0, 0, 0, 0, 1, 0x58, 0, 0x50]).set_arrivals []) primary
      ⟨⟨0, 0⟩, ⟨0, 0⟩, ⟨0, 0⟩, ⟨0, 0⟩, 0⟩ 0 5 1 :=
  (addresses_iff (m := primary_found) (d := primary) rfl (by decide) rfl _ 5 1).1.mpr
    (.inr (.inr ⟨rfl, by decide⟩)) _ _

/-- The first sector of the slave is asked for, and the drive is told to read that of the master. -/
theorem slave_read_from_master :
    let m := (primary_found.set_responses [0, 0, 0, 0]).set_arrivals []
    let t : TaskFile := ⟨⟨0, 0⟩, ⟨0, 0⟩, ⟨0, 0⟩, ⟨0, 0⟩, 0⟩
    ¬ Addresses (ata_readSectors 1 0 1) m primary t 1 0 1 ∧
    (issued primary.base_port t (writes ((ata_readSectors 1 0 1).run m).2.log)).map
        (fun p => p.2.decode p.1) = some (some ⟨false, 0, 1⟩) :=
  And.intro (fun h => nomatch (show some (Request.mk false 0 1) = some ⟨true, 0, 1⟩ from h)) rfl

end Condor.Ata
