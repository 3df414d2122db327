import Condor.Kbd.Bounds
import Condor.Kbd.KeyStates

/-!
# Resynchronisation

The prefixes that are pending depend on the bytes only (`next_state`). All of
them are dropped at the end of the next key but `STATE_EXTENDED1`: while that
one is pending, the codes of ordinary keys are ignored, and none of them drops
it. So the decoder gets back into step if and only if the bytes do not leave it
pending (`isr_resync_iff`).
-/

namespace Condor.Kbd

open Lib.Transducer

variable {a : Around} {k : Keyboard} {state keycode : BitVec 8} {bytes : List (BitVec 8)} {c : ScanCode}

/-- What `keyboard_isr` does to `state`. -/
def next_state (state keycode : BitVec 8) : BitVec 8 :=
  if keycode = 0xE0 then
    if state &&& STATE_EXTENDED0 ≠ 0 then (if state &&& ~~~STATE_PAUSE ≠ 0 then 0 else state)
    else state ||| STATE_EXTENDED0
  else if keycode = 0xE1 then
    if state &&& STATE_EXTENDED1 ≠ 0 then state ||| STATE_PAUSE else state ||| STATE_EXTENDED1
  else if keycode = 0xF0 then
    if state &&& STATE_BREAK ≠ 0 then (if state &&& (STATE_EXTENDED1 ||| STATE_PAUSE) = 0 then 0 else state)
    else state ||| STATE_BREAK
  else if (state &&& STATE_EXTENDED1 ≠ 0 ∨ state &&& STATE_BREAK ≠ 0) ∧ state &&& STATE_PAUSE ≠ 0 then
    if keycode = 0x77 then 0 else state
  else if state &&& STATE_EXTENDED1 ≠ 0 ∨ state &&& STATE_PAUSE ≠ 0 then state
  else 0

/-- After at most two makes of ordinary keys no prefix is pending, and the next make is taken for what it
is. -/
def Resyncs (a : Around) (k : Keyboard) : Prop :=
  ∀ c₁ c₂ c₃ : ScanCode, ∃ n ≤ 2,
    (run (keyboard_isr a) k ([c₁.1, c₂.1].take n)).state = 0 ∧
    outputs (keyboard_isr a) (run (keyboard_isr a) k ([c₁.1, c₂.1].take n)) [c₃.1] = [.regular false false c₃.1]

theorem isr_state (a : Around) (k : Keyboard) (keycode : BitVec 8) :
    (keyboard_isr a k keycode).2.state = next_state k.state keycode := by
  unfold keyboard_isr next_state
  simp only [apply_ite Prod.snd, apply_ite Keyboard.state, Keyboard.regular_key_state]

theorem run_state (a : Around) (k : Keyboard) (bytes : List (BitVec 8)) :
    (run (keyboard_isr a) k bytes).state = bytes.foldl next_state k.state := by
  induction bytes generalizing k with
  | nil => rfl
  | cons b bytes ih => rw [run_cons, ih, isr_state, List.foldl_cons]

/-! ## Pending prefixes -/

/-- The second half of the Pause sequence is only pending behind the first. -/
def Framed (state : BitVec 8) : Prop := state &&& STATE_PAUSE ≠ 0 → state &&& STATE_EXTENDED1 ≠ 0

theorem or_and_eq_zero {mask flag : BitVec 8} :
    (state ||| mask) &&& flag = 0 ↔ state &&& flag = 0 ∧ mask &&& flag = 0 := by
  rw [BitVec.and_or_distrib_right]
  exact BitVec.or_eq_zero_iff

theorem Framed.zero : Framed 0 := fun h => absurd rfl h

theorem Framed.or {mask : BitVec 8} (h : Framed state) (hmask : mask &&& STATE_PAUSE = 0) :
    Framed (state ||| mask) := by
  intro hpause hext
  have hold : state &&& STATE_PAUSE ≠ 0 := fun hp => hpause (or_and_eq_zero.mpr ⟨hp, hmask⟩)
  exact h hold (or_and_eq_zero.mp hext).1

theorem Framed.next (h : Framed state) (keycode : BitVec 8) : Framed (next_state state keycode) := by
  unfold next_state
  split_ifs with _ _ _ _ hext
  · exact .zero
  · exact h
  · exact h.or rfl
  -- the second `0xE1` comes behind the first
  · exact fun _ hno => hext (or_and_eq_zero.mp hno).1
  · exact h.or rfl
  · exact .zero
  · exact h
  · exact h.or rfl
  · exact .zero
  · exact h
  · exact h
  · exact .zero

theorem Framed.foldl (h : Framed state) (bytes : List (BitVec 8)) : Framed (bytes.foldl next_state state) := by
  induction bytes generalizing state with
  | nil => exact h
  | cons b bytes ih => exact ih (h.next b)

/-- Ordinary codes, other than the last one of the Pause sequence, do not move a pending `0xE1`. -/
theorem next_state_pending (hext : state &&& STATE_EXTENDED1 ≠ 0)
    (h : keycode ≠ 0xE0 ∧ keycode ≠ 0xE1 ∧ keycode ≠ 0xF0) (h77 : keycode ≠ 0x77) :
    next_state state keycode = state := by
  unfold next_state
  rw [if_neg h.1, if_neg h.2.1, if_neg h.2.2, if_neg h77]
  split
  · rfl
  · exact if_pos (.inl hext)

theorem foldl_pending (hext : state &&& STATE_EXTENDED1 ≠ 0) (n : Nat) :
    (List.replicate n scanA.1).foldl next_state state = state := by
  induction n with
  | zero => rfl
  | succ n ih =>
    have hkey : next_state state scanA.1 = state := next_state_pending hext scanA.byte.2 (by decide)
    rw [List.replicate_succ, List.foldl_cons, hkey, ih]

/-- Any other prefix is dropped at the end of the next key. -/
theorem next_state_key (hext : state &&& STATE_EXTENDED1 = 0) (hframed : Framed state) (b : KeyByte) :
    next_state state b.1 = 0 := by
  have hpause : ¬ state &&& STATE_PAUSE ≠ 0 := fun hp => hframed hp hext
  unfold next_state
  rw [if_neg b.2.1, if_neg b.2.2.1, if_neg b.2.2.2, if_neg fun h => hpause h.2,
    if_neg fun h => h.elim (not_not.mpr hext) hpause]

theorem not_resyncs (hext : k.state &&& STATE_EXTENDED1 ≠ 0) : ¬ Resyncs a k := by
  intro h
  obtain ⟨n, hn, hzero, -⟩ := h scanA scanA scanA
  have htake : [scanA.1, scanA.1].take n = List.replicate n scanA.1 := by
    rw [show [scanA.1, scanA.1] = List.replicate 2 scanA.1 from rfl, List.take_replicate, Nat.min_eq_left hn]
  rw [htake, run_state, foldl_pending hext] at hzero
  exact hext (by rw [hzero]; rfl)

theorem resyncs (hext : k.state &&& STATE_EXTENDED1 = 0) (hframed : Framed k.state) : Resyncs a k := by
  intro c₁ c₂ c₃
  have hstate : (run (keyboard_isr a) k [c₁.1]).state = 0 := by
    rw [run_state]
    exact next_state_key hext hframed c₁.byte
  have hkey : keyboard_isr a (run (keyboard_isr a) k [c₁.1]) c₃.1 = _ :=
    @isr_key a _ false false hstate c₃.byte
  refine ⟨1, by decide, hstate, ?_⟩
  change (keyboard_isr a (run (keyboard_isr a) k [c₁.1]) c₃.1).1.toList ++ _ = _
  rw [hkey]
  rfl

/-- **Resynchronisation.** After any bytes from the reset the decoder gets back into step within two makes of
ordinary keys if and only if no `0xE1` is pending in the state that they come in. -/
theorem isr_resync_iff (a : Around) (k : Keyboard) (bytes : List (BitVec 8)) :
    Resyncs a (run (keyboard_isr a) k.keyboard_resetState bytes) ↔
      (run (keyboard_isr a) k.keyboard_resetState bytes).state &&& STATE_EXTENDED1 = 0 := by
  have hframed : Framed (run (keyboard_isr a) k.keyboard_resetState bytes).state := by
    rw [run_state]
    exact Framed.zero.foldl bytes
  exact ⟨fun h => by_contra fun hext => not_resyncs hext h, fun hext => resyncs hext hframed⟩

/-- The first byte of a Pause sequence that is cut off leaves the keyboard dead. -/
theorem lost_pause : ¬ Resyncs .zero (run (keyboard_isr .zero) blank.keyboard_resetState [0xE1]) :=
  not_resyncs (by decide)

end Condor.Kbd
