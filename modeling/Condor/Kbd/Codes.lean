import Condor.Kbd.Isr

/-!
# Sequences of scan codes

`keyboard_isr` undoes the framing of scan code set 2 for all sequences of
complete codes (`decode_encode`).
-/

namespace Condor.Kbd

open Lib.Transducer

/-! ## Decoding -/

/-- A byte that is no prefix. -/
abbrev KeyByte := { b : BitVec 8 // b ≠ 0xE0 ∧ b ≠ 0xE1 ∧ b ≠ 0xF0 }

/-- A complete code: a make or break of a key, or the Pause sequence. -/
inductive Code where
  | key (extended brk : Bool) (keycode : KeyByte)
  | pause

namespace Code

def encode : Code → List (BitVec 8)
  | key extended brk keycode =>
    (if extended then [0xE0] else []) ++ (if brk then [0xF0] else []) ++ [keycode.1]
  | pause => [0xE1, 0x14, 0x77, 0xE1, 0xF0, 0x14, 0xF0, 0x77]

def ended : Code → Ended
  | key extended brk keycode => .regular extended brk keycode.1
  | pause => .pause

/-- The prefix flags of a key's code. -/
def flags (extended brk : Bool) : BitVec 8 :=
  (if extended then STATE_EXTENDED0 else 0) ||| (if brk then STATE_BREAK else 0)

/-- What a code does to the keyboard. -/
def effect (a : Around) (k : Keyboard) : Code → Keyboard
  | key extended brk keycode => { k with state := flags extended brk }.regular_key a keycode.1
  | pause => { (k.push KEY_PAUSE).set_key KEY_PAUSE KEY_STATE_DOWN with state := 0 }

end Code

variable {a : Around} {k : Keyboard} {key : BitVec 8}

@[simp] theorem Keyboard.getKeyState_state (k : Keyboard) (key : BitVec 8) :
    (k.keyboard_getKeyState key).2.state = k.state := by
  unfold keyboard_getKeyState
  split
  · rfl
  · split <;> rfl

@[simp] theorem Keyboard.not_up_state (k : Keyboard) (key : BitVec 8) :
    (k.not_up key).2.state = k.state :=
  k.getKeyState_state key

@[simp] theorem Keyboard.either_not_up_state (k : Keyboard) (key1 key2 : BitVec 8) :
    (k.either_not_up key1 key2).2.state = k.state := by
  unfold either_not_up
  dsimp only
  split
  · exact k.not_up_state key1
  · rw [not_up_state, not_up_state]

theorem Keyboard.regular_key_state (a : Around) (k : Keyboard) (keycode : BitVec 8) :
    (k.regular_key a keycode).state = 0 := by
  simp only [regular_key, status_check, not_up_state, either_not_up_state, getKeyState_state]

theorem Code.effect_state (a : Around) (k : Keyboard) (c : Code) : (c.effect a k).state = 0 := by
  cases c with
  | key extended brk keycode => exact Keyboard.regular_key_state a _ keycode.1
  | pause => rfl

/-- The last byte of a key's code. -/
theorem isr_key {extended brk : Bool} (h : k.state = Code.flags extended brk) (keycode : KeyByte) :
    keyboard_isr a k keycode.1 = (some (.regular extended brk keycode.1), k.regular_key a keycode.1) := by
  obtain ⟨b, h1, h2, h3⟩ := keycode
  unfold keyboard_isr
  rw [if_neg h1, if_neg h2, if_neg h3, h]
  cases extended <;> cases brk <;> rfl

theorem isr_E0 (h : k.state &&& STATE_EXTENDED0 = 0) :
    keyboard_isr a k 0xE0 = (none, { k with state := k.state ||| STATE_EXTENDED0 }) := by
  unfold keyboard_isr
  rw [if_pos rfl, if_neg (not_not.mpr h)]

theorem isr_F0 (h : k.state &&& STATE_BREAK = 0) :
    keyboard_isr a k 0xF0 = (none, { k with state := k.state ||| STATE_BREAK }) := by
  unfold keyboard_isr
  rw [if_neg (by decide), if_neg (by decide), if_pos rfl, if_neg (not_not.mpr h)]

/-- The prefixes of a key's code. -/
theorem isr_prefixes (h : k.state = 0) (extended brk : Bool) (bytes : List (BitVec 8)) :
    let pre := (if extended then [0xE0] else []) ++ (if brk then [0xF0] else [])
    outputs (keyboard_isr a) k (pre ++ bytes) =
      outputs (keyboard_isr a) { k with state := Code.flags extended brk } bytes ∧
    run (keyboard_isr a) k (pre ++ bytes) =
      run (keyboard_isr a) { k with state := Code.flags extended brk } bytes := by
  have h0 (mask : BitVec 8) : k.state &&& mask = 0 := by
    rw [h]
    exact BitVec.zero_and
  cases extended <;> cases brk
  · have hk : { k with state := Code.flags false false } = k := by
      rw [show Code.flags false false = k.state from h.symm]
    rw [hk]
    exact ⟨rfl, rfl⟩
  · simp only [Bool.false_eq_true, if_false, if_true, List.nil_append, List.singleton_append, outputs, run_cons]
    rw [isr_F0 (h0 STATE_BREAK), h, show 0 ||| STATE_BREAK = Code.flags false true by decide]
    exact ⟨rfl, rfl⟩
  · simp only [Bool.false_eq_true, if_false, if_true, List.append_nil, List.singleton_append, outputs, run_cons]
    rw [isr_E0 (h0 STATE_EXTENDED0), h, show 0 ||| STATE_EXTENDED0 = Code.flags true false by decide]
    exact ⟨rfl, rfl⟩
  · simp only [if_true, List.cons_append, List.nil_append, outputs, run_cons]
    rw [isr_E0 (h0 STATE_EXTENDED0), h, isr_F0 (show (0 ||| STATE_EXTENDED0) &&& STATE_BREAK = 0 by decide)]
    dsimp only
    rw [show 0 ||| STATE_EXTENDED0 ||| STATE_BREAK = Code.flags true true by decide]
    exact ⟨rfl, rfl⟩

/-- The Pause sequence passes through `0x4`, `0xC` and `0xD`. -/
theorem isr_pause (h : k.state = 0) :
    outputs (keyboard_isr a) k Code.pause.encode = [.pause] ∧
      run (keyboard_isr a) k Code.pause.encode = Code.pause.effect a k := by
  obtain ⟨key_states, buffer, state, status, last_caps_state⟩ := k
  obtain rfl : state = 0 := h
  simp [Code.encode, Code.effect, outputs, keyboard_isr, STATE_BREAK, STATE_EXTENDED1, STATE_PAUSE,
    Keyboard.push, Keyboard.set_key]

/-- One complete code, from no pending prefix. -/
theorem isr_code (h : k.state = 0) (c : Code) :
    outputs (keyboard_isr a) k c.encode = [c.ended] ∧ run (keyboard_isr a) k c.encode = c.effect a k := by
  cases c with
  | key extended brk keycode =>
    obtain ⟨hout, hrun⟩ := isr_prefixes (a := a) h extended brk [keycode.1]
    have hkey := isr_key (a := a) (k := { k with state := Code.flags extended brk }) rfl keycode
    refine ⟨hout.trans ?_, hrun.trans ?_⟩
    · rw [outputs, hkey]
      rfl
    · rw [run_cons, hkey]
      rfl
  | pause => exact isr_pause h

/-- Complete codes, from no pending prefix. -/
theorem isr_codes {codes : List Code} (h : k.state = 0) :
    outputs (keyboard_isr a) k (codes.flatMap Code.encode) = codes.map Code.ended ∧
      run (keyboard_isr a) k (codes.flatMap Code.encode) = codes.foldl (Code.effect a) k ∧
      (codes.foldl (Code.effect a) k).state = 0 := by
  induction codes generalizing k with
  | nil => exact ⟨rfl, rfl, h⟩
  | cons c codes ih =>
    obtain ⟨hout, hrun⟩ := isr_code (a := a) h c
    obtain ⟨houts, hruns, hstate⟩ := ih (c.effect_state a k)
    refine ⟨?_, ?_, hstate⟩
    · rw [List.flatMap_cons, outputs_append, hout, hrun, houts]
      rfl
    · rw [List.flatMap_cons, run_append, hrun, hruns]
      rfl

/-- **Decoding undoes encoding.** For every sequence of codes, from no pending prefix, the interrupt ends
each code once, in order, with its table, break flag and key; what it does is what the codes do; and after
each code no prefix is pending. -/
theorem decode_encode (a : Around) (k : Keyboard) (codes : List Code) :
    let k0 := { k with state := 0 }
    outputs (keyboard_isr a) k0 (codes.flatMap Code.encode) = codes.map Code.ended ∧
    run (keyboard_isr a) k0 (codes.flatMap Code.encode) = codes.foldl (Code.effect a) k0 ∧
    ∀ pre, pre <+: codes → (run (keyboard_isr a) k0 (pre.flatMap Code.encode)).state = 0 := by
  intro k0
  obtain ⟨hout, hrun, -⟩ := isr_codes (a := a) (k := k0) rfl
  refine ⟨hout, hrun, fun pre _ => ?_⟩
  obtain ⟨-, hrun, hstate⟩ := isr_codes (a := a) (k := k0) rfl
  rw [hrun, hstate]

end Condor.Kbd
