import Condor.Lib.Runs
import Mathlib.Data.BitVec
import Mathlib.Logic.Function.Basic

/-!
# The reload values of the timer

The 8254 has three channels. A command byte programs the access mode of a channel:
whether the bytes at its port are the low byte of the count, the high byte, or both
in turn. `pit_writeReload` sends one byte or two, by the table `counter_settings`.
It sends two for every access mode, though two single bytes load the count twice,
and the table's index is `counter >> 6`, which is 1 for the ports of all three
channels, so that the mode given last for any of them decides. `pit_loads_iff` says
for which calls of a sequence the channel comes out with the value asked for.
-/

namespace Condor.Pit

open Lib

/-! ## The device -/

/-- Which bytes of the count are written; a low byte waits for its high byte. -/
inductive Access where
  | lo
  | hi
  | lo_hi (low : Option (BitVec 8))
  deriving DecidableEq, Repr

/-- A channel: its access mode once it is programmed, and the count that it reloads. -/
structure Channel where
  access : Option Access
  reload : BitVec 16
  deriving DecidableEq, Repr

/-- The count from its two bytes. -/
def count (high low : BitVec 8) : BitVec 16 := high.setWidth 16 <<< 8 ||| low.setWidth 16

/-- A byte at the channel's port. -/
def Channel.write (ch : Channel) (byte : BitVec 8) : Channel :=
  match ch.access with
  | none => ch
  | some .lo => { ch with reload := count 0#8 byte }
  | some .hi => { ch with reload := count byte 0#8 }
  | some (.lo_hi none) => { ch with access := some (.lo_hi (some byte)) }
  | some (.lo_hi (some low)) => ⟨some (.lo_hi none), count byte low⟩

abbrev Device := Fin 3 → Channel

/-- Bits 4 and 5 of a command byte; 0 latches the count instead. -/
def access_mode (byte : BitVec 8) : Option Access :=
  if byte &&& 0x30#8 = 0x10#8 then some .lo
  else if byte &&& 0x30#8 = 0x20#8 then some .hi
  else if byte &&& 0x30#8 = 0x30#8 then some (.lo_hi none)
  else none

/-- A command byte: bits 6 and 7 name the channel, or read back at 3. -/
def Device.command (d : Device) (byte : BitVec 8) : Device := fun n =>
  match access_mode byte with
  | none => d n
  | some access => if (byte >>> 6).toNat = n then { d n with access := some access } else d n

/-! ## The code -/

def PIT_COUNTER0 : BitVec 8 := 0x40#8
def PIT_COMMAND : BitVec 8 := 0x43#8
def PIT_ACCESS_MODE_LO_HI : BitVec 8 := 0b00110000#8

/-- `PIT_COUNTER0`, `PIT_COUNTER1` and `PIT_COUNTER2`. -/
def PIT_COUNTER (n : Fin 3) : BitVec 8 := PIT_COUNTER0 + BitVec.ofNat 8 n

/-- `counter_settings` and the device. -/
structure State where
  counter_settings : BitVec 8 → BitVec 8
  device : Device

def outb (s : State) (port data : BitVec 8) : State :=
  { s with device :=
      if port = PIT_COMMAND then s.device.command data
      else fun n => if port = PIT_COUNTER n then (s.device n).write data else s.device n }

def pit_writeReload (s : State) (value : BitVec 16) (counter : BitVec 8) : State :=
  let s := outb s counter ((value &&& 0xFF#16).setWidth 8)
  if s.counter_settings (counter >>> 6) &&& PIT_ACCESS_MODE_LO_HI ≠ 0#8 then
    outb s counter ((value >>> 8).setWidth 8)
  else s

def pit_createCounter (s : State) (frequency : BitVec 32) (counter mode : BitVec 8) : State :=
  if frequency = 0#32 then s
  else
    let divisor := 1193182#32 / frequency
    let s := { s with counter_settings := Function.update s.counter_settings (counter >>> 6) mode }
    let s := outb s PIT_COMMAND ((mode.setWidth 32 ||| counter.setWidth 32 <<< 6).setWidth 8)
    pit_writeReload s (divisor.setWidth 16) counter

/-! ## Sequences of calls -/

inductive Call where
  | createCounter (frequency : BitVec 32) (n : Fin 3) (mode : BitVec 8)
  | writeReload (value : BitVec 16) (n : Fin 3)

def Call.counter : Call → Fin 3
  | .createCounter _ n _ => n
  | .writeReload _ n => n

def exec (s : State) : Call → State
  | .createCounter frequency n mode => pit_createCounter s frequency (PIT_COUNTER n) mode
  | .writeReload value n => pit_writeReload s value (PIT_COUNTER n)

/-- The reload that a call asks for, where it fits the counter. -/
def Call.requested : Call → Option (BitVec 16)
  | .createCounter frequency _ _ =>
    if 1 ≤ frequency.toNat ∧ 1193182 / frequency.toNat < 65536 then
      some (BitVec.ofNat 16 (1193182 / frequency.toNat))
    else none
  | .writeReload value _ => some value

/-- A channel that is programmed has this count, and no byte waits. -/
def Channel.Loaded (ch : Channel) (value : BitVec 16) : Prop :=
  match ch.access with
  | none => True
  | some (.lo_hi (some _)) => False
  | _ => ch.reload = value

/-- The call leaves its channel with the reload it asks for. -/
def Loads (s : State) (call : Call) : Prop :=
  ∀ value, call.requested = some value → ((exec s call).device call.counter).Loaded value

/-- The channel decodes `value` from its two bytes, or from the low one alone. -/
def Channel.Decodes (ch : Channel) (two : Prop) (value : BitVec 16) : Prop :=
  match ch.access with
  | none => True
  | some .lo => (two → value = 0#16) ∧ (¬ two → value.toNat < 256)
  | some .hi => (two → value.toNat % 256 = 0) ∧ (¬ two → value = 0#16)
  | some (.lo_hi none) => two
  | some (.lo_hi (some low)) => ¬ two ∧ value.toNat = 256 * (value.toNat % 256) + low.toNat

/-- An access bit of the mode that any `pit_createCounter` was given last. -/
def two_bytes (mode : BitVec 8) : Prop := mode &&& PIT_ACCESS_MODE_LO_HI ≠ 0#8

/-- For `pit_createCounter` the channel is as its command leaves it. -/
def CallOk (s : State) (call : Call) : Prop :=
  ∀ value, call.requested = some value →
    match call with
    | .createCounter _ n mode =>
      (s.device.command (mode ||| BitVec.ofNat 8 n <<< 6) n).Decodes (two_bytes mode) value
    | .writeReload _ n => (s.device n).Decodes (two_bytes (s.counter_settings 1#8)) value

variable {s : State} {ch : Channel} {value : BitVec 16} {n : Fin 3} {byte : BitVec 8}

/-! ## Bytes and counts -/

@[simp]
theorem count_toNat (high low : BitVec 8) : (count high low).toNat = 256 * high.toNat + low.toNat := by
  have hhigh : (high.setWidth 16 <<< 8).toNat = high.toNat * 2 ^ 8 := by
    rw [BitVec.toNat_shiftLeft, BitVec.toNat_setWidth_of_le (by decide), Nat.shiftLeft_eq]
    exact Nat.mod_eq_of_lt (by omega)
  have hlow : (low.setWidth 16).toNat < 2 ^ 8 := by
    rw [BitVec.toNat_setWidth_of_le (by decide)]
    exact low.isLt
  rw [count, BitVec.toNat_or, hhigh, ← Nat.shiftLeft_eq, ← Nat.shiftLeft_add_eq_or_of_lt hlow, Nat.shiftLeft_eq,
    BitVec.toNat_setWidth_of_le (by decide), Nat.mul_comm]

@[simp]
theorem low_byte_toNat (value : BitVec 16) : ((value &&& 0xFF#16).setWidth 8).toNat = value.toNat % 256 := by
  rw [BitVec.toNat_setWidth, BitVec.toNat_and, show (0xFF#16).toNat = 2 ^ 8 - 1 from rfl,
    Nat.and_two_pow_sub_one_eq_mod]
  exact Nat.mod_mod _ _

@[simp]
theorem high_byte_toNat (value : BitVec 16) : ((value >>> 8).setWidth 8).toNat = value.toNat / 256 := by
  rw [BitVec.toNat_setWidth, BitVec.toNat_ushiftRight, Nat.shiftRight_eq_div_pow]
  exact Nat.mod_eq_of_lt (by omega)

theorem count_eq_iff {high low : BitVec 8} :
    count high low = value ↔ 256 * high.toNat + low.toNat = value.toNat := by
  rw [← BitVec.toNat_inj, count_toNat]

theorem value_eq_zero_iff : value = 0#16 ↔ value.toNat = 0 := BitVec.toNat_inj.symm

/-! ## One channel -/

/-- Both bytes, the low one first. -/
theorem loaded_two_iff (ch : Channel) (value : BitVec 16) :
    ((ch.write ((value &&& 0xFF#16).setWidth 8)).write ((value >>> 8).setWidth 8)).Loaded value ↔
      ch.Decodes True value := by
  obtain ⟨access, reload⟩ := ch
  match access with
  | none => exact Iff.rfl
  | some .lo =>
    simp only [Channel.write, Channel.Loaded, Channel.Decodes, count_eq_iff, value_eq_zero_iff, high_byte_toNat,
      BitVec.toNat_zero, true_imp_iff, not_true_eq_false, false_imp_iff, and_true]
    omega
  | some .hi =>
    simp only [Channel.write, Channel.Loaded, Channel.Decodes, count_eq_iff, value_eq_zero_iff, high_byte_toNat,
      BitVec.toNat_zero, true_imp_iff, not_true_eq_false, false_imp_iff, and_true]
    omega
  | some (.lo_hi none) =>
    refine iff_of_true ?_ trivial
    show count _ _ = value
    rw [count_eq_iff, high_byte_toNat, low_byte_toNat]
    exact Nat.div_add_mod _ _
  | some (.lo_hi (some low)) => exact iff_of_false id fun h => h.1 trivial

/-- The low byte alone. -/
theorem loaded_one_iff (ch : Channel) (value : BitVec 16) :
    (ch.write ((value &&& 0xFF#16).setWidth 8)).Loaded value ↔ ch.Decodes False value := by
  obtain ⟨access, reload⟩ := ch
  match access with
  | none => exact Iff.rfl
  | some .lo =>
    simp only [Channel.write, Channel.Loaded, Channel.Decodes, count_eq_iff, value_eq_zero_iff, low_byte_toNat,
      BitVec.toNat_zero, not_false_eq_true, true_imp_iff, false_imp_iff, true_and]
    omega
  | some .hi =>
    simp only [Channel.write, Channel.Loaded, Channel.Decodes, count_eq_iff, value_eq_zero_iff, low_byte_toNat,
      BitVec.toNat_zero, not_false_eq_true, true_imp_iff, false_imp_iff, true_and]
    omega
  | some (.lo_hi none) => exact Iff.rfl
  | some (.lo_hi (some low)) =>
    refine Iff.trans ?_ (and_iff_right not_false).symm
    show count _ _ = value ↔ _
    rw [count_eq_iff, low_byte_toNat]
    exact eq_comm

/-! ## The code -/

theorem PIT_COUNTER_ne (n : Fin 3) : PIT_COUNTER n ≠ PIT_COMMAND := by
  revert n
  decide

/-- All three ports have the same index. -/
theorem settings_index (n : Fin 3) : PIT_COUNTER n >>> 6 = 1#8 := by
  revert n
  decide

theorem outb_counter (s : State) (n : Fin 3) (byte : BitVec 8) :
    (outb s (PIT_COUNTER n) byte).device n = (s.device n).write byte := by
  unfold outb
  rw [if_neg (PIT_COUNTER_ne n)]
  exact if_pos rfl

/-- The byte for the command port keeps the mode and the number of the counter. -/
theorem command_byte (mode : BitVec 8) (n : Fin 3) :
    (mode.setWidth 32 ||| (PIT_COUNTER n).setWidth 32 <<< 6).setWidth 8 = mode ||| BitVec.ofNat 8 n <<< 6 := by
  have hselect : ((PIT_COUNTER n).setWidth 32 <<< 6).setWidth 8 = BitVec.ofNat 8 n <<< 6 := by
    revert n
    decide
  rw [BitVec.setWidth_or, hselect, BitVec.setWidth_setWidth_of_le mode (by decide), BitVec.setWidth_eq]

/-- `pit_writeReload` loads the channel with what it decodes. -/
theorem writeReload_loaded_iff (s : State) (value : BitVec 16) (n : Fin 3) :
    ((pit_writeReload s value (PIT_COUNTER n)).device n).Loaded value ↔
      (s.device n).Decodes (two_bytes (s.counter_settings 1#8)) value := by
  have hsettings (port data : BitVec 8) : (outb s port data).counter_settings = s.counter_settings := rfl
  unfold pit_writeReload
  dsimp only
  rw [settings_index, hsettings]
  split
  · rename_i htwo
    rw [outb_counter, outb_counter, loaded_two_iff, eq_true (show two_bytes _ from htwo)]
  · rename_i hone
    rw [outb_counter, loaded_one_iff, eq_false (show ¬ two_bytes _ from hone)]

/-- A call loads its channel exactly if it is `CallOk`. -/
theorem loads_iff (s : State) (call : Call) : Loads s call ↔ CallOk s call := by
  refine forall₂_congr fun value hrequested => ?_
  cases call with
  | writeReload v n =>
    cases hrequested
    exact writeReload_loaded_iff s value n
  | createCounter frequency n mode =>
    obtain ⟨⟨hfrequency, hfits⟩, hvalue⟩ := Option.ite_none_right_eq_some.mp hrequested
    have hne : frequency ≠ 0#32 := by
      rintro rfl
      exact absurd hfrequency (by decide)
    have hdivisor : (1193182#32 / frequency).setWidth 16 = value := by
      cases hvalue
      refine BitVec.eq_of_toNat_eq ?_
      rw [BitVec.toNat_setWidth, BitVec.toNat_udiv, BitVec.toNat_ofNat]
      rfl
    show ((pit_createCounter s frequency (PIT_COUNTER n) mode).device n).Loaded value ↔ _
    unfold pit_createCounter
    rw [if_neg hne]
    dsimp only
    rw [hdivisor, writeReload_loaded_iff, command_byte, settings_index]
    show (s.device.command _ n).Decodes (two_bytes (Function.update s.counter_settings 1#8 mode 1#8)) value ↔ _
    rw [Function.update_self]

/-- **The reloads.** From every state of the table and the device, all calls of a sequence leave their channels with
the reloads they ask for if and only if each of them is `CallOk`. -/
theorem pit_loads_iff (s : State) (calls : List Call) : Under exec Loads s calls ↔ Under exec CallOk s calls := by
  induction calls generalizing s with
  | nil => exact Iff.rfl
  | cons call calls ih => exact and_congr (loads_iff s call) (ih (exec s call))

/-- The table before the first call, and a device that is not programmed. -/
def boot : State := ⟨fun _ => 0#8, fun _ => ⟨none, 0#16⟩⟩

/-- The call of `pit_init`. -/
example : CallOk boot (.createCounter 150#32 0 0b00110100#8) := by
  intro value _
  show two_bytes _
  unfold two_bytes
  decide

/-- A low-only channel gets the high byte of 238 as well, and loads it as the count. -/
theorem createCounter_low_only : ¬ Under exec Loads boot [.createCounter 5000#32 2 0b00010110#8] := by
  rintro ⟨hloads, -⟩
  have hdecodes := (loads_iff _ _).mp hloads 238#16 rfl
  exact absurd (hdecodes.1 (by unfold two_bytes; decide)) (by decide)

end Condor.Pit
