import Condor.Ata.Calm

/-!
# Rules for the requests

A request makes its checks, switches to the device, takes it, writes the command
and moves the data. `ata_start_rule` and `atapi_sendCommand_rule` say what has to
be shown of the parts for an invariant to hold before the device is taken, another
one while the data is moved, and a postcondition at the end. `Plain`, `Sending` and
`Steady` are the invariants that survive the parts that no rule asks about.
-/

namespace Condor.Ata

open Lib Lib.Prog

variable {α : Type} {I J P Q : Machine → Prop} {device i : Nat} {a base : BitVec 32} {why : Why}
  {m : Machine}
  {d : AtaDevice} {c : Config} {lba : BitVec 64} {sector_count cmd48 cmd28 : BitVec 8}

/-! ## Writes to the ports -/

/-- A calm invariant that survives bytes written to the ports. -/
structure Plain (I : Machine → Prop) : Prop extends Calm I where
  outb_log : ∀ m p v, I m → I (m.append_log (.outb p v))

/-- A plain invariant that survives words written to the ports. -/
structure Sending (I : Machine → Prop) : Prop extends Plain I where
  outw_log : ∀ m p v, I m → I (m.append_log (.outw p v))

theorem Plain.and (hI : Plain I) (hJ : Plain J) : Plain fun m => I m ∧ J m where
  irq := Triple.and hI.irq hJ.irq
  arrivals m ns h := ⟨hI.arrivals m ns h.1, hJ.arrivals m ns h.2⟩
  read m p v vs hr h := ⟨hI.read m p v vs hr h.1, hJ.read m p v vs hr h.2⟩
  block m i d hd h := ⟨hI.block m i d hd h.1, hJ.block m i d hd h.2⟩
  current m device h := ⟨hI.current m device h.1, hJ.current m device h.2⟩
  outb_log m p v h := ⟨hI.outb_log m p v h.1, hJ.outb_log m p v h.2⟩

theorem Sending.and (hI : Sending I) (hJ : Sending J) : Sending fun m => I m ∧ J m where
  toPlain := hI.toPlain.and hJ.toPlain
  outw_log m p v h := ⟨hI.outw_log m p v h.1, hJ.outw_log m p v h.2⟩

namespace Plain

variable (hI : Plain I)
include hI

theorem keeps_outb {v : BitVec 8} : Keeps I (Ata.outb a v) :=
  hI.toCalm.outb fun m h => hI.outb_log m (port a) v h

theorem outbs (l : List (BitVec 32 × BitVec 8)) : Keeps I (outbs base l) := by
  induction l with
  | nil => exact Keeps.pure _
  | cons w l ih => exact hI.keeps_outb.bind fun _ => ih

theorem packet_busy (alt_status : BitVec 32) (u : Unit) : Keeps I (packet_busy alt_status u) := by
  refine hI.inb_other.bind fun _ => Keeps.ite ?_ (Keeps.pure _)
  exact hI.inb_other.bind fun _ => Keeps.ite (Keeps.pure _) (Keeps.pure _)

end Plain

namespace Sending

variable (hI : Sending I)
include hI

theorem keeps_outw {v : BitVec 16} : Keeps I (Ata.outw a v) :=
  hI.toCalm.outw fun m h => hI.outw_log m (port a) v h

theorem send_words (command : Nat → BitVec 8) (l : List Nat) : Keeps I (send_words base command l) := by
  induction l with
  | nil => exact Keeps.pure _
  | cons i l ih => exact hI.keeps_outw.bind fun _ => ih

theorem send_packet (command : Nat → BitVec 8) (command_length : BitVec 8) :
    Keeps I (send_packet device base command command_length) := by
  refine (hI.send_words command _).bind fun _ => Keeps.ite (Keeps.pure _) ?_
  exact (hI.send_words command _).bind fun _ => (Keeps.record _).bind fun d => hI.send_words command _

end Sending

/-- The device of index `i` has configuration `c`, and is in use if `u` says so. -/
def Held (i : Nat) (c : Config) (u : Bool) (m : Machine) : Prop :=
  ∃ d, m.record i = some d ∧ d.config = c ∧ d.in_use = u

theorem Held.set_record {j : Nat} {u : Bool} {d' : AtaDevice} (h : Held j c u m)
    (hd : m.record i = some d)
    (hc : d'.config = d.config) (hu : d'.in_use = d.in_use) : Held j c u (m.set_record i d') := by
  obtain ⟨d₀, hd₀, hc₀, hu₀⟩ := h
  unfold Held
  rw [record_set_record hd]
  by_cases hij : i = j
  · subst hij
    rw [hd] at hd₀
    cases hd₀
    exact ⟨d', if_pos rfl, hc.trans hc₀, hu.trans hu₀⟩
  · exact ⟨d₀, (if_neg hij).trans hd₀, hc₀, hu₀⟩

theorem HasConfig.release (h : HasConfig i c m) (hd : m.record i = some d) (u : Bool) :
    Held i c u (m.set_record i (d.use u)) :=
  ⟨d.use u, (record_set_record hd).trans (if_pos rfl), show d.config = c from h.eq hd, rfl⟩

theorem Held.hasConfig {u : Bool} (h : Held i c u m) : HasConfig i c m := h.imp fun _ hd => ⟨hd.1, hd.2.1⟩

theorem inert_held (i : Nat) (c : Config) (u : Bool) : Inert (Held i c u) where
  arrivals _ _ h := h
  read _ _ _ _ _ _ _ h := h
  flags _ _ _ _ hd hc hu h := h.set_record hd hc hu
  current _ _ h := h

theorem sending_held (i : Nat) (c : Config) (u : Bool) : Sending (Held i c u) where
  toCalm := (inert_held i c u).calm
  outb_log _ _ _ h := h
  outw_log _ _ _ h := h

/-! ## Invariants of whole requests -/

/-- A calm invariant that survives every access of a request, and the device being taken and given
back. -/
structure Steady (I : Machine → Prop) : Prop extends Calm I where
  responses : ∀ m v vs, m.responses = v :: vs → I m → I (m.set_responses vs)
  access : ∀ m a, (∀ i p v, a ≠ .inb (.irq i) p v) → I m → I (m.append_log a)
  used : ∀ m i d b, m.record i = some d → I m → I (m.set_record i (d.use b))
  stored : ∀ m i v, I m → I (m.store i v)

theorem steady_hasConfig (i : Nat) (c : Config) : Steady (HasConfig i c) where
  toCalm := (inert_hasConfig i c).calm
  responses _ _ _ _ h := h
  access _ _ _ h := h
  used _ _ _ _ hd h := h.set_record hd rfl
  stored _ _ _ h := h

/-- What holds of a log and of all longer ones. -/
theorem Steady.of_log (C : List Access → Prop) (h : ∀ l a, C l → C (l ++ [a])) :
    Steady fun m => C m.log where
  toCalm := (Inert.of_log C fun l w p v _ => h l (.inb w p v)).calm
  responses _ _ _ _ hm := hm
  access m a _ hm := h m.log a hm
  used _ _ _ _ _ hm := hm
  stored m i v hm := h m.log (.store i v) hm

theorem Steady.sending (hI : Steady I) : Sending I where
  toCalm := hI.toCalm
  outb_log m p v := hI.access m (.outb p v) nofun
  outw_log m p v := hI.access m (.outw p v) nofun

namespace Steady

variable (hI : Steady I)
include hI

theorem inb (why : Why) (hw : ∀ i, why ≠ .irq i) : Keeps I (Ata.inb why a) :=
  hI.toCalm.inb fun m v vs hr h => 
    hI.access _ (.inb why (port a) (v.setWidth 8)) (fun i _ _ he => hw i (by cases he; rfl))
      (hI.responses m v vs hr h)

theorem inw : Keeps I (Ata.inw a) :=
  hI.toCalm.inw fun m v vs hr h => hI.access _ (.inw (port a) v) nofun (hI.responses m v vs hr h)

theorem use {b : Bool} : Keeps I (write i (·.use b)) :=
  write_spec (fun m d hd h => hI.used m i d b hd h) fun _ h => h

theorem load (i : Nat) : Keeps I (Ata.load i) :=
  (Keeps.modify fun m h => hI.access m (.load i) nofun h).bind fun _ => Keeps.get.bind fun _ =>
    Keeps.pure _

theorem read_word (base : BitVec 32) (i : Nat) : Keeps I (Ata.read_word device base i) := by
  refine (Keeps.record _).bind fun d => (hI.inb .drq nofun).bind fun status => Keeps.ite ?_ (Keeps.pure _)
  exact hI.inw.bind fun w => (Keeps.modify fun m h => hI.stored m i _ h).bind fun _ => Keeps.pure _

theorem write_word (base : BitVec 32) (i : Nat) : Keeps I (Ata.write_word base i) := by
  refine (hI.inb .drq nofun).bind fun status => Keeps.ite ?_ (Keeps.pure _)
  exact (hI.load i).bind fun w => hI.sending.keeps_outw.bind fun _ => Keeps.pure _

theorem transfer_word (type : CommandType) (k : Nat) : Keeps I (Ata.transfer_word base type k) := by
  cases type with
  | READ => exact hI.inw.bind fun w => Keeps.modify fun m h => hI.stored m k _ h
  | WRITE => exact (hI.load k).bind fun w => hI.sending.keeps_outw
  | MISC => exact Keeps.pure _

theorem transfer_words (alt_status : BitVec 32) (type : CommandType) (n k : Nat) (status : BitVec 8) :
    Keeps I (Ata.transfer_words base alt_status type n k status) := by
  induction n generalizing k status with
  | zero => exact Keeps.pure _
  | succ n ih =>
    refine (hI.inb .check nofun).bind fun status => Keeps.ite (Keeps.pure _) ?_
    refine (hI.inb .drq nofun).bind fun _ => Keeps.ite (Keeps.pure _) ?_
    exact (hI.transfer_word type k).bind fun _ => ih (k + 1) status

/-- The part of a turn from `tryAgain` after its first read. -/
theorem try_again_rest (alt_status : BitVec 32) (type : CommandType) (n k : Nat) : Keeps I (do
    let _ ← Ata.inb .other alt_status
    let _ ← Ata.inb .other alt_status
    let _ ← Ata.inb .other alt_status
    let (k, status) ← Ata.transfer_words base alt_status type n k 0
    if status &&& 0x01 ≠ 0 then return .inr false
    Ata.waitForIRQ device
    if (← Ata.inb .other alt_status) &&& 0x08 ≠ 0 then
      Ata.waitForIRQ device
      return .inl k
    write (device >>> DEVICE_INFO_SHIFT) (·.use false)
    return .inr true : M (Nat ⊕ Bool)) := by
  refine hI.inb_other.bind fun _ => hI.inb_other.bind fun _ => hI.inb_other.bind fun _ => ?_
  refine (hI.transfer_words alt_status type n k 0).bind fun r => Keeps.ite (Keeps.pure _) ?_
  refine hI.waitForIRQ.bind fun _ => hI.inb_other.bind fun v => Keeps.ite ?_ ?_
  · exact hI.waitForIRQ.bind fun _ => Keeps.pure _
  · exact hI.use.bind fun _ => Keeps.pure _

theorem try_again (alt_status : BitVec 32) (type : CommandType) (n k : Nat) :
    Keeps I (Ata.try_again device base alt_status type n k) :=
  hI.inb_other.bind fun _ => hI.try_again_rest alt_status type n k

end Steady

/-! ## The checks -/

/-- The request does not fit a command of 28 bits, and the device has no other. -/
def OutOfRange (d : AtaDevice) (lba : BitVec 64) (sector_count : BitVec 8) : Prop :=
  0x0FFFFFFF < lba + sector_count.setWidth 64 ∧ d.lba48_support = false

instance : Decidable (OutOfRange d lba sector_count) := inferInstanceAs (Decidable (_ ∧ _))

/-- The checks turn the request down. -/
def Refused (d : AtaDevice) (device : Nat) (lba : BitVec 64) (sector_count : BitVec 8) : Prop :=
  OutOfRange d lba sector_count ∨ sector_count = 0 ∨ d.in_use = true ∨ device = ATA_DEVICE_INVALID ∨
    d.interface_type ≠ .ATA

instance : Decidable (Refused d device lba sector_count) := inferInstanceAs (Decidable (_ ∨ _))

theorem controller_run (h : m.record (device >>> DEVICE_INFO_SHIFT) = some d) :
    (controller device).run m = (.ok d, m) := by
  rw [controller, record, bind_ok (get_run m), h, pure_run]

theorem out_of_range_run (h : m.record (device >>> DEVICE_INFO_SHIFT) = some d) :
    (out_of_range device lba sector_count).run m = (.ok (decide (OutOfRange d lba sector_count)), m) := by
  unfold out_of_range
  by_cases hrange : 0x0FFFFFFF < lba + sector_count.setWidth 64
  · have hiff : OutOfRange d lba sector_count ↔ d.lba48_support = false := and_iff_right hrange
    have hnot : (!d.lba48_support) = decide (OutOfRange d lba sector_count) := by
      by_cases hl : d.lba48_support = false
      · rw [hl, decide_eq_true (hiff.mpr hl), Bool.not_false]
      · rw [Bool.eq_true_of_not_eq_false hl, decide_eq_false (mt hiff.mp hl), Bool.not_true]
    rw [if_pos hrange, bind_ok (controller_run h), pure_run, hnot]
  · have hno : ¬ OutOfRange d lba sector_count := fun hc => hrange hc.1
    rw [if_neg hrange, pure_run, decide_eq_false hno]

theorem controllers_isNone (h : m.record i = some d) : m.controllers.isNone = false := by
  unfold Machine.record at h
  cases hc : m.controllers with
  | none => rw [hc] at h; cases h
  | some l => rfl

/-- The checks turn down exactly the requests that are `Refused`. -/
theorem ata_refuses_run (h : m.record (device >>> DEVICE_INFO_SHIFT) = some d) :
    (ata_refuses device lba sector_count).run m = (.ok (decide (Refused d device lba sector_count)), m) := by
  have hsome := controllers_isNone h
  have hd := controller_run h
  unfold ata_refuses
  rw [bind_ok (out_of_range_run h)]
  by_cases hout : OutOfRange d lba sector_count
  · rw [if_pos (decide_eq_true hout), pure_run, decide_eq_true (show Refused _ _ _ _ from .inl hout)]
  rw [if_neg (by simpa using hout)]
  by_cases hcount : sector_count = 0
  · rw [if_pos hcount, pure_run, decide_eq_true (show Refused _ _ _ _ from .inr (.inl hcount))]
  rw [if_neg hcount, bind_ok hd]
  by_cases huse : d.in_use = true
  · rw [if_pos huse, pure_run, decide_eq_true (show Refused _ _ _ _ from .inr (.inr (.inl huse)))]
  rw [if_neg huse, bind_ok (get_run m), if_neg (by simp [hsome])]
  by_cases hinv : device = ATA_DEVICE_INVALID
  · rw [if_pos hinv, pure_run, decide_eq_true (show Refused _ _ _ _ from .inr (.inr (.inr (.inl hinv))))]
  rw [if_neg hinv, bind_ok hd]
  have hiff : Refused d device lba sector_count ↔ d.interface_type ≠ .ATA := by
    unfold Refused
    tauto
  by_cases htype : d.interface_type = .INVALID
  · rw [if_pos htype, pure_run, decide_eq_true (hiff.mpr (by rw [htype]; nofun))]
  · rw [if_neg htype, bind_ok hd, pure_run, decide_eq_decide.mpr hiff]

/-! ## The two kinds of request -/

/-- `P` holds up to the write that selects the drive and `Q` from there on. -/
theorem switchDevice_selects (hd : m.record (device >>> DEVICE_INFO_SHIFT) = some d)
    (hlt : device < m.controller_index) (hP : Calm P) (hQ : Calm Q) (hm : P m)
    (hselect : ∀ m', P m' →
      Q (m'.append_log (.outb (port (d.base_port + ATA_DEVICE_SEL)) (.ofNat 8 ((device &&& 0x1) <<< 4))))) :
    Triple (· = m) (switchDevice device) (fun base m' => base = d.base_port ∧ Q m')
      fun _ m' => P m' ∨ Q m' := by
  have hQ' {α : Type} {x : M α} (hx : Keeps Q x) : Triple Q x (fun _ => Q) fun _ m' => P m' ∨ Q m' :=
    hx.triple fun _ _ h => .inr h
  intro m' hm'
  subst hm'
  have hrun : (switchDevice device).run m' = (do
      outb (d.base_port + ATA_DEVICE_SEL) (.ofNat 8 ((device &&& 0x1) <<< 4))
      let _ ← inb .other (d.base_port + ATA_STATUS)
      let _ ← inb .other (d.base_port + ATA_STATUS)
      let _ ← inb .other (d.base_port + ATA_STATUS)
      let _ ← inb .other (d.base_port + ATA_STATUS)
      modify (·.set_current device)
      return d.base_port).run m' := by
    rw [switchDevice, bind_ok (get_run m'), if_neg (by omega), bind_ok (controller_run hd)]
  rw [hrun]
  refine Triple.bind ((hP.outb hselect).stops fun _ _ h => .inl h) (fun _ => ?_) m' hm
  refine (hQ' hQ.inb_other).bind fun _ => (hQ' hQ.inb_other).bind fun _ =>
    (hQ' hQ.inb_other).bind fun _ =>
    (hQ' hQ.inb_other).bind fun _ => ?_
  exact Triple.bind (Triple.modify fun m hm => hQ.current m device hm) fun _ =>
    Triple.pure fun m hm => ⟨rfl, hm⟩

theorem switchDevice_rule (hd : m.record (device >>> DEVICE_INFO_SHIFT) = some d)
    (hlt : device < m.controller_index)
    (hP : Plain P) (hm : P m) :
    Triple (· = m) (switchDevice device) (fun base m' => base = d.base_port ∧ P m') fun _ => P :=
  (switchDevice_selects hd hlt hP.toCalm hP.toCalm hm fun m' h => hP.outb_log m' _ _ h).stops
    fun _ _ h => h.elim id id

/-- The head of `ata_readSectors` and `ata_writeSectors`, before `rest`. -/
def ata_start (device : Nat) (lba : BitVec 64) (sector_count cmd48 cmd28 : BitVec 8)
    (rest : BitVec 32 → M Bool) : M Bool := do
  if ← ata_refuses device lba sector_count then return false
  let base ← switchDevice device
  if base = 0 then return false
  ata_issue device base lba sector_count cmd48 cmd28
  rest base

/-- `ata_readSectors` after the command. -/
def read_rest (device : Nat) (base : BitVec 32) : M Bool := do
  waitForIRQ device
  loop (read_word device base) 0
  ata_finish device

/-- `ata_writeSectors` after the command. -/
def write_rest (device : Nat) (base : BitVec 32) : M Bool := do
  loop (write_word base) 0
  let d ← controller device
  outb (base + ATA_COMMAND) (if d.lba48_support then ATA_FLUSH_CACHE_EXT else ATA_FLUSH_CACHE)
  ata_finish device

theorem ata_readSectors_eq : ata_readSectors device lba sector_count =
    ata_start device lba sector_count ATA_READ_SECTORS_EXT ATA_READ_SECTORS (read_rest device) := rfl

theorem ata_writeSectors_eq : ata_writeSectors device lba sector_count =
    ata_start device lba sector_count ATA_WRITE_SECTORS_EXT ATA_WRITE_SECTORS (write_rest device) := rfl

theorem Calm.ata_finish {E : Stop → Machine → Prop} (hI : Calm I)
    (hgive : ∀ m d, m.record (device >>> DEVICE_INFO_SHIFT) = some d → P m →
      I (m.set_record (device >>> DEVICE_INFO_SHIFT) (d.use false)))
    (hP' : ∀ e m, P m → E e m) (hI' : ∀ e m, I m → E e m) :
    Triple P (ata_finish device)
      (fun r m => I m ∧ ∃ d, m.record (device >>> DEVICE_INFO_SHIFT) = some d ∧ (!d.has_errored) = r) E := by
  refine Triple.bind (write_spec hgive (hP' .wild)) fun _ => ?_
  refine Triple.bind (hI.has_errored.stops hI') fun b => ?_
  exact Triple.pure fun m h => ⟨h.1, h.2.imp fun d hd => ⟨hd.1, by rw [hd.2]⟩⟩

namespace Steady

variable (hI : Steady I)
include hI

theorem ata_finish : Keeps I (Ata.ata_finish device) := by
  refine hI.use.bind fun _ => Keeps.bind ?_ fun _ => Keeps.pure _
  exact hI.interrupts.bind fun _ => (Keeps.record _).bind fun _ => Keeps.pure _

theorem read_rest (base : BitVec 32) : Keeps I (Ata.read_rest device base) :=
  hI.waitForIRQ.bind fun _ => (Keeps.loop (hI.read_word base) 0).bind fun _ => hI.ata_finish

theorem write_rest (base : BitVec 32) : Keeps I (Ata.write_rest device base) :=
  (Keeps.loop (hI.write_word base) 0).bind fun _ => (Keeps.record _).bind fun _ =>
    hI.sending.keeps_outb.bind fun _ => hI.ata_finish

end Steady

/-- `Q` holds of a run that returns. -/
def Returned (Q : α → Machine → Prop) : Except Stop α → Machine → Prop
  | .ok r, m => Q r m
  | .error _, _ => True

theorem Returned.imp {Q Q' : α → Machine → Prop} {x : Except Stop α} (h : Returned Q x m)
    (hQ : ∀ r, Q r m → Q' r m) : Returned Q' x m := by
  cases x with
  | ok r => exact hQ r h
  | error e => trivial

theorem Returned.of_run {Q : α → Machine → Prop} {x : M α} {m' : Machine} {r : α}
    (h : Returned Q (x.run m).1 (x.run m).2) (hx : x.run m = (.ok r, m')) : Q r m' := by
  rw [hx] at h
  exact h

variable {rest : BitVec 32 → M Bool} {R : Except Stop Bool → Machine → Prop}

/-- The parts of a request: `P` holds of a device that has been switched to, and `I` once the command is
written. -/
theorem ata_start_parts (hd : m.record (device >>> DEVICE_INFO_SHIFT) = some d)
    (hrefused : Refused d device lba sector_count → R (.ok false) m)
    (hswitch : Triple (· = m) (switchDevice device) (fun base m' => base = d.base_port ∧ P m')
      fun e => R (.error e))
    (hzero : d.base_port = 0 → ∀ m', P m' → R (.ok false) m')
    (hissue : ¬ Refused d device lba sector_count → d.base_port ≠ 0 →
      Triple P (ata_issue device d.base_port lba sector_count cmd48 cmd28) (fun _ => I)
        fun e => R (.error e))
    (hrest : ¬ Refused d device lba sector_count → d.base_port ≠ 0 →
      Triple I (rest d.base_port) (fun r => R (.ok r)) fun e => R (.error e)) :
    R ((ata_start device lba sector_count cmd48 cmd28 rest).run m).1
      ((ata_start device lba sector_count cmd48 cmd28 rest).run m).2 := by
  unfold ata_start
  rw [bind_ok (ata_refuses_run hd)]
  by_cases href : Refused d device lba sector_count
  · rw [if_pos (decide_eq_true href), pure_run]
    exact hrefused href
  rw [if_neg (by simpa using href)]
  refine Triple.result (P := (· = m)) (R := R) ?_ rfl
  refine hswitch.bind fun base => Triple.assume (fun _ h => h.1) fun hbase => ?_
  subst hbase
  refine Triple.ite (fun hport => ?_) fun hport => ?_
  · exact Triple.pure fun m' h => hzero hport m' h.2
  · exact ((hissue href hport).before fun _ h => h.2).bind fun _ => hrest href hport

/-- `P` holds until the device is taken and `I` from then on to the end of the command. -/
theorem ata_start_rule (hd : m.record (device >>> DEVICE_INFO_SHIFT) = some d)
    (hlt : device < m.controller_index) (hP : Plain P) (hI : Plain I) (hm : P m)
    (htake : ∀ m' d', m'.record (device >>> DEVICE_INFO_SHIFT) = some d' → P m' →
      I (m'.set_record (device >>> DEVICE_INFO_SHIFT) (d'.use true)))
    (hout : Refused d device lba sector_count ∨ d.base_port = 0 → ∀ m', P m' → R (.ok false) m')
    (hP' : ∀ e m', P m' → R (.error e) m') (hI' : ∀ e m', I m' → R (.error e) m')
    (hrest : ¬ Refused d device lba sector_count → d.base_port ≠ 0 →
      Triple I (rest d.base_port) (fun r => R (.ok r)) fun e => R (.error e)) :
    R ((ata_start device lba sector_count cmd48 cmd28 rest).run m).1
      ((ata_start device lba sector_count cmd48 cmd28 rest).run m).2 := by
  apply ata_start_parts hd (fun href => hout (.inl href) m hm)
    ((switchDevice_rule hd hlt hP hm).stops hP')
  · exact fun hzero m' h => hout (.inr hzero) m' h
  · intro _ _
    refine Triple.bind (write_spec htake (hP' .wild)) fun _ => ?_
    exact ((Keeps.record _).triple hI').bind fun d' => (hI.outbs _).triple hI'
  · exact hrest

/-- `atapi_sendCommand` does not send the packet. -/
def Declined (d : AtaDevice) : Prop := d.interface_type ≠ .ATAPI ∨ d.in_use = true ∨ d.base_port = 0xFFFF

/-- The record that the device is held with is the one that is read. -/
theorem controller_held {c : Config} {u : Bool}
    (hE : ∀ m, P m ∧ Held (device >>> DEVICE_INFO_SHIFT) c u m → E .wild m) :
    Triple (fun m => P m ∧ Held (device >>> DEVICE_INFO_SHIFT) c u m) (controller device)
      (fun d m => (d.config = c ∧ d.in_use = u) ∧ P m ∧ Held (device >>> DEVICE_INFO_SHIFT) c u m) E := by
  refine (record_spec hE).after fun d m h => ?_
  obtain ⟨hd, hp, d₀, hd₀, hc, hu⟩ := h
  rw [hd] at hd₀
  cases hd₀
  exact ⟨⟨hc, hu⟩, hp, d, hd, hc, hu⟩

/-- `P` holds until the device is taken, `I` from then on to the command, `J` until the packet is sent,
and then `K`. -/
theorem atapi_sendPacket_rule {K : Machine → Prop} {E : Stop → Machine → Prop} {command : Nat → BitVec 8}
    {command_length : BitVec 8} (hd : m.record (device >>> DEVICE_INFO_SHIFT) = some d)
    (hlt : device < m.controller_index) (hP : Plain P) (hI : Plain I) (hJ : Plain J) (hm : P m)
    (htake : ¬ Declined d → ∀ m' d', m'.record (device >>> DEVICE_INFO_SHIFT) = some d' → P m' →
      I (m'.set_record (device >>> DEVICE_INFO_SHIFT) (d'.use true)))
    (hcommand : ∀ m', I m' → J (m'.append_log (.outb (port (d.base_port + ATA_COMMAND)) ATA_PACKET)))
    (hP' : ∀ e m', P m' → E e m') (hI' : ∀ e m', I m' → E e m') (hJ' : ∀ e m', J m' → E e m')
    (hpacket : Triple J (send_packet device d.base_port command command_length) (fun _ => K) E) :
    Triple (· = m) (atapi_sendPacket device command command_length)
      (fun r m' => (r = none ∧ Declined d ∧ P m') ∨
        ∃ alt_status, r = some (d.base_port, alt_status) ∧ ¬ Declined d ∧ K m') E := by
  have hsome : ¬ m.controllers.isNone = true := by
    rw [controllers_isNone hd]
    exact Bool.false_ne_true
  -- The record may change while the device is switched to, but not in what is checked.
  have hheld : Plain fun m' => P m' ∧ Held (device >>> DEVICE_INFO_SHIFT) d.config d.in_use m' :=
    hP.and (sending_held _ _ _).toPlain
  have hswitch := (switchDevice_rule hd hlt hheld ⟨hm, d, hd, rfl, rfl⟩).stops fun e m' h => hP' e m' h.1
  have hrecord : Triple (fun m' => P m' ∧ Held (device >>> DEVICE_INFO_SHIFT) d.config d.in_use m')
      (controller device) (fun d' m' => (d'.config = d.config ∧ d'.in_use = d.in_use) ∧ P m' ∧
        Held (device >>> DEVICE_INFO_SHIFT) d.config d.in_use m') E :=
    controller_held fun m' h => hP' .wild m' h.1
  unfold atapi_sendPacket
  refine Triple.get.bind fun m₀ => Triple.assume (fun _ h => h.1.trans h.2) fun heq => ?_
  subst heq
  rw [if_neg hsome]
  refine (hswitch.before fun _ h => h.2).bind fun base => Triple.assume (fun _ h => h.1) fun hbase => ?_
  subst hbase
  refine (hrecord.before fun _ h => h.2).bind fun d₁ => ?_
  refine (hrecord.before fun _ h => h.2).bind fun d₂ =>
    Triple.assume (fun _ h => h.1) fun heq₂ => ?_
  have htype : d₂.interface_type = d.interface_type := congrArg Config.interface_type heq₂.1
  refine Triple.ite (fun hbad => .pure fun m' h => .inl ⟨rfl, .inl (htype ▸ hbad), h.2.1⟩)
    fun hatapi => ?_
  refine (hrecord.before fun _ h => h.2).bind fun d₃ =>
    Triple.assume (fun _ h => h.1) fun heq₃ => ?_
  refine Triple.ite (fun huse => .pure fun m' h => .inl ⟨rfl, .inr (.inl (heq₃.2 ▸ huse)), h.2.1⟩)
    fun hfree => ?_
  refine Triple.ite (fun hport => .pure fun m' h => .inl ⟨rfl, .inr (.inr hport), h.2.1⟩) fun hport => ?_
  have hnot : ¬ Declined d := by
    unfold Declined
    rw [← htype, ← heq₃.2]
    tauto
  refine (write_spec (fun m' d' hd' h => htake hnot m' d' hd' h.2.1) fun m' h => hP' _ m' h.2.1).bind fun _ => ?_
  have hIE {α : Type} {x : M α} (hx : Keeps I x) : Triple I x (fun _ => I) E := hx.triple hI'
  refine (hIE hI.keeps_outb).bind fun _ => (hIE hI.keeps_outb).bind fun _ =>
    (hIE hI.keeps_outb).bind fun _ => ?_
  refine Triple.bind ((hI.toCalm.outb hcommand).stops hI') fun _ => ?_
  refine ((Keeps.loop (hJ.packet_busy _) ()).triple hJ').bind fun _ => hpacket.bind fun _ => ?_
  exact .pure fun m' h => .inr ⟨_, rfl, hnot, h⟩

/-- `P` holds until the device is taken, `I` from then on to the command, `J` until the packet is sent,
and `K` until the data is moved. -/
theorem atapi_sendCommand_parts {K : Machine → Prop} {command : Nat → BitVec 8}
    {command_length : BitVec 8}
    (hd : m.record (device >>> DEVICE_INFO_SHIFT) = some d)
    (hlt : device < m.controller_index) (hP : Plain P) (hI : Plain I) (hJ : Plain J) (hK : Plain K)
    (hm : P m)
    (htake : ¬ Declined d → ∀ m' d', m'.record (device >>> DEVICE_INFO_SHIFT) = some d' → P m' →
      I (m'.set_record (device >>> DEVICE_INFO_SHIFT) (d'.use true)))
    (hcommand : ∀ m', I m' → J (m'.append_log (.outb (port (d.base_port + ATA_COMMAND)) ATA_PACKET)))
    (hout : Declined d → ∀ m', P m' → R (.ok false) m')
    (hP' : ∀ e m', P m' → R (.error e) m') (hI' : ∀ e m', I m' → R (.error e) m')
    (hJ' : ∀ e m', J m' → R (.error e) m') (hK' : ∀ e m', K m' → R (.error e) m')
    (hpacket : Triple J (send_packet device d.base_port command command_length) (fun _ => K)
      fun e => R (.error e))
    (hloop : ¬ Declined d → ∀ alt_status n,
      Triple K (loop (try_again device d.base_port alt_status (atapi_getCommandType (command 0)) n) 0)
        (fun r => R (.ok r)) fun e => R (.error e)) :
    R ((atapi_sendCommand device command command_length).run m).1
      ((atapi_sendCommand device command command_length).run m).2 := by
  have hKR {α : Type} {x : M α} (hx : Keeps K x) : Triple K x (fun _ => K) fun e => R (.error e) :=
    hx.triple hK'
  have hbegin := atapi_sendPacket_rule hd hlt hP hI hJ hm htake hcommand hP' hI' hJ' hpacket
  rw [atapi_sendCommand_eq]
  refine Triple.result (P := (· = m)) (R := R) (hbegin.bind fun r => ?_) rfl
  match r with
  | none =>
    refine .pure fun m' h => ?_
    obtain ⟨-, hdec, h⟩ | ⟨_, hr, -⟩ := h
    · exact hout hdec m' h
    · cases hr
  | some (base, alt_status) =>
    refine Triple.assume (φ := base = d.base_port ∧ ¬ Declined d) ?_ fun heq => ?_
    · rintro m' (⟨hr, -⟩ | ⟨_, hr, hnot, -⟩) <;> cases hr
      exact ⟨rfl, hnot⟩
    obtain ⟨rfl, hnot⟩ := heq
    refine Triple.before (P := K) ?_ fun m' h => ?_
    · refine (hKR hK.waitForIRQ).bind fun _ => (hKR hK.inb_other).bind fun lo =>
        (hKR hK.inb_other).bind fun hi => ?_
      exact hloop hnot _ _
    · obtain ⟨hr, -⟩ | ⟨_, -, -, h⟩ := h
      · cases hr
      · exact h

/-- What survives all words that are sent holds from the command until the data is moved. -/
theorem atapi_sendCommand_rule {command : Nat → BitVec 8} {command_length : BitVec 8}
    (hd : m.record (device >>> DEVICE_INFO_SHIFT) = some d)
    (hlt : device < m.controller_index) (hP : Plain P) (hI : Plain I) (hJ : Sending J) (hm : P m)
    (htake : ¬ Declined d → ∀ m' d', m'.record (device >>> DEVICE_INFO_SHIFT) = some d' → P m' →
      I (m'.set_record (device >>> DEVICE_INFO_SHIFT) (d'.use true)))
    (hcommand : ∀ m', I m' → J (m'.append_log (.outb (port (d.base_port + ATA_COMMAND)) ATA_PACKET)))
    (hout : Declined d → ∀ m', P m' → R (.ok false) m')
    (hP' : ∀ e m', P m' → R (.error e) m') (hI' : ∀ e m', I m' → R (.error e) m')
    (hJ' : ∀ e m', J m' → R (.error e) m')
    (hloop : ¬ Declined d → ∀ alt_status n,
      Triple J (loop (try_again device d.base_port alt_status (atapi_getCommandType (command 0)) n) 0)
        (fun r => R (.ok r)) fun e => R (.error e)) :
    R ((atapi_sendCommand device command command_length).run m).1
      ((atapi_sendCommand device command command_length).run m).2 :=
  atapi_sendCommand_parts hd hlt hP hI hJ.toPlain hJ.toPlain hm htake hcommand hout hP' hI' hJ' hJ'
    ((hJ.send_packet command _).triple hJ') hloop

variable {W D : Nat → Machine → Prop} {E : Stop → Machine → Prop} {alt_status : BitVec 32}
  {type : CommandType}

/-- `W k` holds when the next word is the one at `k`, and `D k` when it has been asked for. -/
theorem transfer_words_rule {B : Nat → Machine → Prop}
    (hcheck : ∀ k, Triple (W k) (inb .check alt_status)
      (fun v m => if v &&& 0x1 ≠ 0 then B k m else W k m) E)
    (hdrq : ∀ k, Triple (W k) (inb .drq alt_status) (fun v m => if v &&& 0x08 = 0 then W k m else D k m) E)
    (hword : ∀ k, Triple (D k) (transfer_word base type k) (fun _ => W (k + 1)) E)
    {status : BitVec 8} (hstatus : status &&& 0x1 = 0) (n k : Nat) :
    Triple (W k) (transfer_words base alt_status type n k status)
      (fun r m => if r.2 &&& 0x1 ≠ 0 then B r.1 m else W r.1 m) E := by
  induction n generalizing k status with
  | zero =>
    refine Triple.pure fun m hm => ?_
    rw [if_neg (not_not_intro hstatus)]
    exact hm
  | succ n ih =>
    refine (hcheck k).bind fun v => Triple.ite (fun hbad => Triple.pure fun m hm => hm) fun hgood => ?_
    refine Triple.before ?_ fun m hm => by rwa [if_neg hgood] at hm
    refine (hdrq k).bind fun w => Triple.ite (fun hend => Triple.pure fun m hm => ?_) fun hmore => ?_
    · rw [if_pos hend] at hm
      rw [if_neg hgood]
      exact hm
    · refine Triple.before ?_ fun m hm => by rwa [if_neg hmore] at hm
      exact (hword k).bind fun _ => ih (not_not.mp hgood) (k + 1)

/-- What `W` has to satisfy between the transfers of `atapi_sendCommand`, and when it gives the
device back. -/
theorem try_again_rule {B : Nat → Machine → Prop} (hW : ∀ k, Calm (W k))
    (hwords : ∀ n k, Triple (W k) (transfer_words base alt_status type n k 0)
      (fun r m => if r.2 &&& 0x1 ≠ 0 then B r.1 m else W r.1 m) fun e => R (.error e))
    (hbad : ∀ k m, B k m → R (.ok false) m)
    (hrelease : ∀ k m d, m.record (device >>> DEVICE_INFO_SHIFT) = some d → W k m →
      R (.ok true) (m.set_record (device >>> DEVICE_INFO_SHIFT) (d.use false)))
    (hstop : ∀ k e m, W k m → R (.error e) m) (n : Nat) :
    Triple (W 0) (loop (try_again device base alt_status type n) 0) (fun r => R (.ok r))
      fun e => R (.error e) := by
  have hWR {α : Type} {k : Nat} {x : M α} (hx : Keeps (W k) x) :
      Triple (W k) x (fun _ => W k) fun e => R (.error e) :=
    hx.triple (hstop k)
  refine Triple.bind (hWR Keeps.get) fun m₀ => ?_
  apply Triple.iterate (I := W)
  · intro k
    refine (hWR (hW k).inb_other).bind fun _ => (hWR (hW k).inb_other).bind fun _ =>
      (hWR (hW k).inb_other).bind fun _ => (hWR (hW k).inb_other).bind fun _ => ?_
    refine (hwords n k).bind fun r => Triple.ite (fun herr => .pure fun m hm => ?_) fun hgood => ?_
    · rw [if_pos herr] at hm
      exact hbad r.1 m hm
    refine Triple.before ?_ fun m hm => by rwa [if_neg hgood] at hm
    refine (hWR (hW r.1).waitForIRQ).bind fun _ => (hWR (hW r.1).inb_other).bind fun v =>
      Triple.ite (fun _ => ?_)
      fun _ => ?_
    · exact (hWR (hW r.1).waitForIRQ).bind fun _ => .pure fun m hm => hm
    · exact Triple.bind (write_spec (hrelease r.1) (hstop r.1 .wild)) fun _ => .pure fun m hm => hm
  · intro k m hm
    exact hstop k .pending m hm

/-! ## Steady invariants of whole requests -/

theorem keeps_ata_refuses : Keeps I (ata_refuses device lba sector_count) := by
  have hrecord : Keeps I (controller device) := Keeps.record _
  refine Keeps.bind (Keeps.ite (hrecord.bind fun _ => Keeps.pure _) (Keeps.pure _)) fun out => ?_
  refine Keeps.ite (Keeps.pure _) (Keeps.ite (Keeps.pure _) (hrecord.bind fun d => Keeps.ite (Keeps.pure _) ?_))
  refine Keeps.get.bind fun m => Keeps.ite (Keeps.pure _) (Keeps.ite (Keeps.pure _) ?_)
  exact hrecord.bind fun d => Keeps.ite (Keeps.pure _) (hrecord.bind fun d => Keeps.pure _)

theorem keeps_atapi_refuses : Keeps I (atapi_refuses device lba sector_count) := by
  refine Keeps.ite (Keeps.pure _) (Keeps.ite (Keeps.pure _) (Keeps.get.bind fun m => Keeps.ite (Keeps.pure _) ?_))
  exact Keeps.bind (Keeps.record _) fun d => Keeps.pure _

namespace Steady

variable (hI : Steady I)
include hI

theorem switchDevice : Keeps I (Ata.switchDevice device) := hI.toCalm.switchDevice hI.sending.outb_log

theorem ata_start (hrest : ∀ base, Keeps I (rest base)) :
    Keeps I (ata_start device lba sector_count cmd48 cmd28 rest) := by
  refine keeps_ata_refuses.bind fun refused => Keeps.ite (Keeps.pure _) ?_
  refine hI.switchDevice.bind fun base => Keeps.ite (Keeps.pure _) ?_
  refine Keeps.bind (hI.use.bind fun _ => Keeps.bind (Keeps.record _) fun d => hI.sending.outbs _)
    fun _ => ?_
  exact hrest base

theorem ata_sendCommand (command : BitVec 8) (data_length : Nat) :
    Keeps I (ata_sendCommand device command data_length) := by
  refine hI.switchDevice.bind fun base => Keeps.ite (Keeps.pure _) ?_
  refine hI.sending.keeps_outb.bind fun _ => hI.waitForIRQ.bind fun _ => ?_
  exact Keeps.bind (Keeps.record _) fun d => Keeps.pure _

theorem atapi_sendCommand (command : Nat → BitVec 8) (command_length : BitVec 8) :
    Keeps I (atapi_sendCommand device command command_length) := by
  have hrecord : Keeps I (controller device) := Keeps.record _
  have hout {a : BitVec 32} {v : BitVec 8} : Keeps I (outb a v) := hI.sending.keeps_outb
  refine Keeps.get.bind fun m => Keeps.ite (Keeps.pure _) (hI.switchDevice.bind fun base => ?_)
  refine hrecord.bind fun d => hrecord.bind fun d => Keeps.ite (Keeps.pure _) ?_
  refine hrecord.bind fun d => Keeps.ite (Keeps.pure _)
    (Keeps.ite (Keeps.pure _) (hI.use.bind fun _ => ?_))
  refine hout.bind fun _ => hout.bind fun _ => hout.bind fun _ => hout.bind fun _ => ?_
  refine (Keeps.loop (hI.sending.packet_busy _) ()).bind fun _ =>
    (hI.sending.send_packet command _).bind fun _ => ?_
  refine hI.waitForIRQ.bind fun _ => hI.inb_other.bind fun lo => hI.inb_other.bind fun hi => ?_
  exact Keeps.loop (hI.try_again _ _ _) 0

theorem atapi_readSectors : Keeps I (atapi_readSectors device lba sector_count) :=
  keeps_atapi_refuses.bind fun _ => Keeps.ite (Keeps.pure _)
    ((hI.atapi_sendCommand _ _).bind fun _ => Keeps.pure _)

theorem atapi_writeSectors (destination : BitVec 32) :
    Keeps I (atapi_writeSectors device lba sector_count destination) := by
  unfold Ata.atapi_writeSectors
  rw [atapi_write_refuses_eq]
  exact keeps_atapi_refuses.bind fun _ => Keeps.ite (Keeps.pure _)
    ((hI.atapi_sendCommand _ _).bind fun _ => Keeps.pure _)

end Steady

end Condor.Ata
