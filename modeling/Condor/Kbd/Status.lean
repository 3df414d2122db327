import Condor.Kbd.Bounds
import Condor.Kbd.KeyStates

/-!
# The status

A byte that moves the state of a key other than Pause also runs the status
check. So after every byte the status shows the states of the modifier keys,
and `STATUS_CAPS` the parity of the presses of Caps Lock (`isr_status`). The
check reads that key twice: its state after the last check is always the state
before the byte.
-/

namespace Condor.Kbd

open Lib.Transducer

variable {a : Around} {k k' : Keyboard} {key keycode status mask flag : BitVec 8} {on : Bool} {n : Nat}
  {bytes : List (BitVec 8)}

/-- The lookup of the byte, if it ends a key, is in bounds and gives a key of the array. -/
def Translates (a : Around) (k : Keyboard) (keycode : BitVec 8) : Prop :=
  EndsKey k.state keycode → (k.table_access a keycode).1.InBounds ∧ (k.table_access a keycode).2 < LAST_KEY

instance (a : Around) (k : Keyboard) (keycode : BitVec 8) : Decidable (Translates a k keycode) :=
  inferInstanceAs (Decidable (_ → _ ∧ _))

/-- Caps Lock goes from up to down. -/
def PressesCaps (k k' : Keyboard) : Prop :=
  k.key_states KEY_CAPS_LOCK = KEY_STATE_UP ∧ k'.key_states KEY_CAPS_LOCK = KEY_STATE_DOWN

instance (k k' : Keyboard) : Decidable (PressesCaps k k') := inferInstanceAs (Decidable (_ ∧ _))

/-- How many bytes of a run take Caps Lock from up to down. -/
def caps_presses (a : Around) : Keyboard → List (BitVec 8) → Nat
  | _, [] => 0
  | k, b :: bytes =>
    let k' := (keyboard_isr a k b).2
    (if PressesCaps k k' then 1 else 0) + caps_presses a k' bytes

/-- The status shows the key states, and the parity of the presses of Caps Lock. -/
structure Shows (k : Keyboard) (presses : Nat) : Prop where
  scroll : k.status &&& STATUS_SCROLL_LOCK ≠ 0 ↔ k.key_states KEY_SCROLL_LOCK ≠ KEY_STATE_UP
  num : k.status &&& STATUS_NUM_LOCK ≠ 0 ↔ k.key_states KEY_NUM_LOCK ≠ KEY_STATE_UP
  caps : k.status &&& STATUS_CAPS ≠ 0 ↔ Odd presses
  shift : k.status &&& STATUS_SHIFT ≠ 0 ↔
    k.key_states KEY_LSHIFT ≠ KEY_STATE_UP ∨ k.key_states KEY_RSHIFT ≠ KEY_STATE_UP
  ctrl : k.status &&& STATUS_CTRL ≠ 0 ↔
    k.key_states KEY_LCTRL ≠ KEY_STATE_UP ∨ k.key_states KEY_RCTRL ≠ KEY_STATE_UP
  alt : k.status &&& STATUS_ALT ≠ 0 ↔ k.key_states KEY_LALT ≠ KEY_STATE_UP
  altgr : k.status &&& STATUS_ALTGR ≠ 0 ↔ k.key_states KEY_RALT ≠ KEY_STATE_UP

/-! ## Flags of the status -/

theorem put_flag {p : Prop} [Decidable p] (h : flag ≠ 0) : put status flag (decide p) &&& flag ≠ 0 ↔ p := by
  by_cases hp : p
  · have hflag : (status ||| flag) &&& flag = flag := by ext i; simp +contextual
    rw [put, if_pos (decide_eq_true hp), hflag]
    exact iff_of_true h hp
  · have hzero : status &&& ~~~flag &&& flag = 0 := by ext i; simp +contextual
    rw [put, if_neg (fun hd => hp (of_decide_eq_true hd)), hzero]
    exact iff_of_false (not_not.mpr rfl) hp

/-- A flag does not see the others. -/
theorem put_other (h : mask &&& flag = 0) : put status mask on &&& flag = status &&& flag := by
  have hflag : ~~~mask &&& flag = flag := by
    calc ~~~mask &&& flag = (mask &&& flag) ||| (~~~mask &&& flag) := by rw [h]; exact BitVec.zero_or.symm
      _ = (mask ||| ~~~mask) &&& flag := BitVec.and_or_distrib_right.symm
      _ = flag := by rw [BitVec.or_not_self, BitVec.allOnes_and]
  cases on with
  | true => rw [put, if_pos rfl, BitVec.and_or_distrib_right, h]; exact BitVec.or_zero
  | false => rw [put, if_neg Bool.false_ne_true, BitVec.and_assoc, hflag]

theorem xor_and : (status ^^^ mask) &&& flag = (status &&& flag) ^^^ (mask &&& flag) := by
  ext i
  simp [Bool.and_xor_distrib_right]

theorem toggle_other {c : Prop} [Decidable c] (h : mask &&& flag = 0) :
    (if c then status ^^^ mask else status) &&& flag = status &&& flag := by
  split
  · rw [xor_and, h]
    exact BitVec.xor_zero
  · rfl

theorem toggle_caps {c : Prop} [Decidable c] (h : status &&& STATUS_CAPS ≠ 0 ↔ Odd n) :
    (if c then status ^^^ STATUS_CAPS else status) &&& STATUS_CAPS ≠ 0 ↔ Odd (n + if c then 1 else 0) := by
  split
  · have hbit : status &&& STATUS_CAPS = if status.getLsbD 2 then STATUS_CAPS else 0 :=
      BitVec.and_twoPow status 2
    rw [Nat.odd_add_one, ← h, xor_and, hbit]
    cases status.getLsbD 2 <;> decide
  · exact h

/-! ## The status check -/

/-- The status check finds what it shows, and toggles `STATUS_CAPS` if Caps Lock is down and was up. -/
theorem Sane.status_check_shows (hs : Sane k) (h : k.status &&& STATUS_CAPS ≠ 0 ↔ Odd n) :
    Shows k.status_check
      (n + if k.key_states KEY_CAPS_LOCK = KEY_STATE_DOWN ∧ k.last_caps_state &&& 0b011 = KEY_STATE_UP
        then 1 else 0) := by
  rw [hs.status_check_eq]
  constructor <;> dsimp only [Keyboard.new_status]
  case altgr => exact put_flag nofun
  case alt =>
    rw [put_other rfl]
    exact put_flag nofun
  case ctrl =>
    rw [put_other rfl, put_other rfl]
    exact put_flag nofun
  case shift =>
    rw [put_other rfl, put_other rfl, put_other rfl]
    exact put_flag nofun
  case caps =>
    rw [put_other rfl, put_other rfl, put_other rfl, put_other rfl]
    refine toggle_caps ?_
    rw [put_other rfl, put_other rfl]
    exact h
  case num =>
    rw [put_other rfl, put_other rfl, put_other rfl, put_other rfl, toggle_other rfl]
    exact put_flag nofun
  case scroll =>
    rw [put_other rfl, put_other rfl, put_other rfl, put_other rfl, toggle_other rfl, put_other rfl]
    exact put_flag nofun

/-! ## Steps -/

/-- Between two bytes: no key has another state, the last Caps Lock state is the present one, and the status
shows all that. -/
structure Settled (k : Keyboard) (presses : Nat) : Prop where
  values : ∀ key < LAST_KEY, k.key_states key ∈ [KEY_STATE_UP, KEY_STATE_DOWN, KEY_STATE_HELD]
  last_caps : k.last_caps_state &&& 0b011 = k.key_states KEY_CAPS_LOCK
  shows : Shows k presses

theorem Settled.sane (h : Settled k n) : Sane k := fun key hkey hpause => by
  have hmem := h.values key hkey
  rw [hpause] at hmem
  exact absurd hmem (by decide)

theorem Settled.start (k : Keyboard) : Settled k.keyboard_resetState 0 := by
  have hup : ∀ key < LAST_KEY, k.keyboard_resetState.key_states key = KEY_STATE_UP := fun _ hkey => if_pos hkey
  have hzero (flag : BitVec 8) : ¬ k.keyboard_resetState.status &&& flag ≠ 0 := not_not.mpr BitVec.zero_and
  refine ⟨fun key hkey => ?_, ?_, ?_⟩
  · rw [hup key hkey]
    exact List.mem_cons_self
  · rw [hup KEY_CAPS_LOCK (by decide)]
    exact BitVec.zero_and
  · constructor <;> refine iff_of_false (hzero _) ?_ <;> simp (disch := decide) [hup]

theorem nextState_mem (old : BitVec 8) (brk : Bool) :
    nextState old brk ∈ [KEY_STATE_UP, KEY_STATE_DOWN, KEY_STATE_HELD] := by
  unfold nextState
  split
  · split <;> decide
  · decide

/-- A byte that moves no key but Pause keeps all of it. -/
theorem Settled.of_keys (h : Settled k n) (hkeys : ∀ key ≠ KEY_PAUSE, k'.key_states key = k.key_states key)
    (hpause : k'.key_states KEY_PAUSE ∈ [KEY_STATE_UP, KEY_STATE_DOWN, KEY_STATE_HELD])
    (hstatus : k'.status = k.status) (hlast : k'.last_caps_state = k.last_caps_state) :
    Settled k' (n + if PressesCaps k k' then 1 else 0) := by
  have hcaps : k'.key_states KEY_CAPS_LOCK = k.key_states KEY_CAPS_LOCK := hkeys _ (by decide)
  have hno : ¬ PressesCaps k k' := by
    rintro ⟨hup, hdown⟩
    rw [hcaps, hup] at hdown
    exact absurd hdown (by decide)
  rw [if_neg hno]
  refine ⟨fun key hkey => ?_, ?_, ?_⟩
  · by_cases heq : key = KEY_PAUSE
    · rw [heq]
      exact hpause
    · rw [hkeys key heq]
      exact h.values key hkey
  · rw [hlast, hcaps]
    exact h.last_caps
  · constructor <;> simp (disch := decide) only [hstatus, hkeys]
    exacts [h.shows.scroll, h.shows.num, h.shows.caps, h.shows.shift, h.shows.ctrl, h.shows.alt, h.shows.altgr]

theorem last_caps_bits {last value : BitVec 8} (h : value ∈ [KEY_STATE_UP, KEY_STATE_DOWN, KEY_STATE_HELD]) :
    ((last &&& 0b100) ||| (value &&& 0x3)) &&& 0b011 = value := by
  have hlast : last &&& 0b100 &&& 0b011 = 0 := by
    rw [BitVec.and_assoc]
    exact BitVec.and_zero
  rw [BitVec.and_or_distrib_right, hlast]
  simp only [List.mem_cons, List.not_mem_nil, or_false] at h
  rcases h with rfl | rfl | rfl <;> rfl

/-- The end of a key moves that key alone, and the check compares Caps Lock before and after. -/
theorem Settled.regular_key (h : Settled k n) (hends : EndsKey k.state keycode) (htrans : Translates a k keycode) :
    Settled (k.regular_key a keycode) (n + if PressesCaps k (k.regular_key a keycode) then 1 else 0) := by
  obtain ⟨-, hkey⟩ := htrans hends
  rw [k.regular_key_eq]
  generalize (k.table_access a keycode).2 = key at hkey ⊢
  have hupdate := h.sane.update_key_eq hkey (decide_eq_true_iff (p := k.state &&& STATE_BREAK ≠ 0)).symm
  generalize decide (k.state &&& STATE_BREAK ≠ 0) = brk at hupdate
  have hkeys : (k.update_key key).key_states =
      Function.update k.key_states key (nextState (k.key_states key) brk) := by
    rw [hupdate]
    split <;> rfl
  have hstatus : (k.update_key key).status = k.status := by
    rw [hupdate]
    split <;> rfl
  have hlast : (k.update_key key).last_caps_state = k.last_caps_state := by
    rw [hupdate]
    split <;> rfl
  generalize k.update_key key = k' at hkeys hstatus hlast
  have hvalues : ∀ key < LAST_KEY, k'.key_states key ∈ [KEY_STATE_UP, KEY_STATE_DOWN, KEY_STATE_HELD] := by
    intro key' hkey'
    rw [hkeys]
    by_cases heq : key' = key
    · rw [heq, Function.update_self]
      exact nextState_mem ..
    · rw [Function.update_of_ne heq]
      exact h.values key' hkey'
  have hsane : Sane { k' with state := 0 } := h.sane.of_update hkeys
  have hpresses : PressesCaps k (Keyboard.status_check { k' with state := 0 }) ↔
      k'.key_states KEY_CAPS_LOCK = KEY_STATE_DOWN ∧ k'.last_caps_state &&& 0b011 = KEY_STATE_UP := by
    rw [PressesCaps, hsane.status_check, hlast, h.last_caps, and_comm]
  refine ⟨?_, ?_, ?_⟩
  · rw [hsane.status_check]
    exact hvalues
  · rw [hsane.status_check_eq]
    exact last_caps_bits (hvalues KEY_CAPS_LOCK (by decide))
  · simp only [hpresses]
    refine hsane.status_check_shows ?_
    dsimp only
    rw [hstatus]
    exact h.shows.caps

theorem Settled.step (h : Settled k n) (htrans : Translates a k keycode) :
    Settled (keyboard_isr a k keycode).2 (n + if PressesCaps k (keyboard_isr a k keycode).2 then 1 else 0) := by
  obtain ⟨hkey, hisr⟩ | ⟨-, hisr⟩ | ⟨-, -, state, hisr⟩ := isr_cases a k keycode
  · rw [hisr]
    exact h.regular_key hkey htrans
  · rw [hisr]
    have hdown : ((k.push KEY_PAUSE).set_key KEY_PAUSE KEY_STATE_DOWN).key_states KEY_PAUSE = KEY_STATE_DOWN := by
      simp [Keyboard.set_key]
    refine h.of_keys (fun key hne => Function.update_of_ne hne ..) ?_ rfl rfl
    dsimp only
    rw [hdown]
    decide
  · rw [hisr]
    exact h.of_keys (fun _ _ => rfl) (h.values KEY_PAUSE (by decide)) rfl rfl

theorem Settled.run (h : Settled k n) (htrans : Along (keyboard_isr a) (Translates a) k bytes) :
    Settled (Lib.Transducer.run (keyboard_isr a) k bytes) (n + caps_presses a k bytes) := by
  induction bytes generalizing k n with
  | nil => exact h
  | cons b bytes ih =>
    obtain ⟨hb, hbytes⟩ := htrans
    rw [caps_presses, ← Nat.add_assoc]
    exact ih (h.step hb) hbytes

/-- **The status.** In every run from the reset whose lookups stay in the tables and give keys of the array, the
status shows the key states and the parity of the presses of Caps Lock after every byte. -/
theorem isr_status (a : Around) (k : Keyboard) (bytes : List (BitVec 8))
    (h : Along (keyboard_isr a) (Translates a) k.keyboard_resetState bytes) :
    ∀ pre, pre <+: bytes →
      Shows (run (keyboard_isr a) k.keyboard_resetState pre) (caps_presses a k.keyboard_resetState pre) := by
  rintro pre ⟨post, rfl⟩
  have hrun := (Settled.start k).run (Along.append.mp h).1
  rw [Nat.zero_add] at hrun
  exact hrun.shows

/-- Caps Lock is pressed and released, and a shift key goes down. -/
theorem isr_status_caps :
    let bytes := [0x58, 0xF0, 0x58, 0x12]
    (run (keyboard_isr .zero) blank.keyboard_resetState bytes).status = STATUS_CAPS ||| STATUS_SHIFT ∧
    ∀ pre, pre <+: bytes → Shows (run (keyboard_isr .zero) blank.keyboard_resetState pre)
      (caps_presses .zero blank.keyboard_resetState pre) :=
  ⟨by decide +kernel, isr_status .zero blank [0x58, 0xF0, 0x58, 0x12] (by decide +kernel)⟩

end Condor.Kbd
