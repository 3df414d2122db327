import Condor.Kbd.Buffer

/-!
# The keyboard interrupt

`keyboard_isr` takes one byte of scan code set 2. Four prefix flags in `state`
frame the bytes: a break (`0xF0`), a key of the second table (`0xE0`), and the
two halves of the Pause sequence (`0xE1`). A byte that ends a key runs
`regular_key`, which moves the state of the key and the status.
-/

namespace Condor.Kbd

open Lib.Transducer

def STATE_BREAK : BitVec 8 := 0x1
def STATE_EXTENDED0 : BitVec 8 := 0x2
def STATE_EXTENDED1 : BitVec 8 := 0x4
def STATE_PAUSE : BitVec 8 := 0x8

def STATUS_SCROLL_LOCK : BitVec 8 := 0x1
def STATUS_NUM_LOCK : BitVec 8 := 0x2
def STATUS_CAPS : BitVec 8 := 0x4
def STATUS_SHIFT : BitVec 8 := 0x10
def STATUS_CTRL : BitVec 8 := 0x20
def STATUS_ALT : BitVec 8 := 0x40
def STATUS_ALTGR : BitVec 8 := 0x80

/-- The variables of `keyboard.c`. From `LAST_KEY` on, `key_states` stands for the bytes behind the
array. -/
structure Keyboard where
  key_states : BitVec 8 → BitVec 8
  buffer : KeyBuffer
  state : BitVec 8
  status : BitVec 8
  last_caps_state : BitVec 8

namespace Keyboard

def set_key (k : Keyboard) (key value : BitVec 8) : Keyboard :=
  { k with key_states := Function.update k.key_states key value }

def push (k : Keyboard) (key : BitVec 8) : Keyboard := { k with buffer := k.buffer.buffer_push key }

/-- The state of a key. It compares that state, not the key, with `KEY_PAUSE`. -/
def keyboard_getKeyState (k : Keyboard) (key : BitVec 8) : BitVec 8 × Keyboard :=
  if k.key_states key ≠ KEY_PAUSE then (k.key_states key, k)
  else if k.key_states KEY_PAUSE = KEY_STATE_DOWN then (KEY_STATE_DOWN, k.set_key KEY_PAUSE KEY_STATE_UP)
  else (KEY_STATE_UP, k)

def keyboard_resetState (k : Keyboard) : Keyboard where
  key_states key := if key < LAST_KEY then 0 else k.key_states key
  buffer := k.buffer.reset
  state := 0
  status := 0
  last_caps_state := KEY_STATE_UP

/-- `keyboard_getKeyState(key) != KEY_STATE_UP`. -/
def not_up (k : Keyboard) (key : BitVec 8) : Bool × Keyboard :=
  let r := k.keyboard_getKeyState key
  (r.1 ≠ KEY_STATE_UP, r.2)

/-- The same for one of two keys, the second only looked at if the first is up. -/
def either_not_up (k : Keyboard) (key1 key2 : BitVec 8) : Bool × Keyboard :=
  let r := k.not_up key1
  if r.1 then r else r.2.not_up key2

end Keyboard

/-- `status |= mask` or `status &= ~mask`. -/
def put (status mask : BitVec 8) (on : Bool) : BitVec 8 :=
  if on then status ||| mask else status &&& ~~~mask

namespace Keyboard

def status_check (k : Keyboard) : Keyboard :=
  let scroll := k.not_up KEY_SCROLL_LOCK
  let new_status := put k.status STATUS_SCROLL_LOCK scroll.1
  let num := scroll.2.not_up KEY_NUM_LOCK
  let new_status := put new_status STATUS_NUM_LOCK num.1
  let caps := num.2.keyboard_getKeyState KEY_CAPS_LOCK
  let new_status :=
    if caps.1 = KEY_STATE_DOWN ∧ k.last_caps_state &&& 0b011 = KEY_STATE_UP then new_status ^^^ STATUS_CAPS
    else new_status
  let caps := caps.2.keyboard_getKeyState KEY_CAPS_LOCK
  let last_caps_state := (k.last_caps_state &&& 0b100) ||| (caps.1 &&& 0x3)
  let shift := caps.2.either_not_up KEY_LSHIFT KEY_RSHIFT
  let new_status := put new_status STATUS_SHIFT shift.1
  let ctrl := shift.2.either_not_up KEY_LCTRL KEY_RCTRL
  let new_status := put new_status STATUS_CTRL ctrl.1
  let alt := ctrl.2.not_up KEY_LALT
  let new_status := put new_status STATUS_ALT alt.1
  let altgr := alt.2.not_up KEY_RALT
  let new_status := put new_status STATUS_ALTGR altgr.1
  { altgr.2 with status := new_status, last_caps_state := last_caps_state }

/-- The key `trans` goes up, down or held, and is pushed unless it went up. -/
def update_key (k : Keyboard) (trans : BitVec 8) : Keyboard :=
  let old := k.keyboard_getKeyState trans
  let k :=
    if old.1 = KEY_STATE_DOWN then
      if old.2.state &&& STATE_BREAK ≠ 0 then old.2.set_key trans KEY_STATE_UP
      else old.2.set_key trans KEY_STATE_HELD
    else old.2.set_key trans KEY_STATE_DOWN
  let new := k.keyboard_getKeyState trans
  if new.1 ≠ KEY_STATE_UP then new.2.push trans else new.2

/-- The end of a regular key. -/
def regular_key (a : Around) (k : Keyboard) (keycode : BitVec 8) : Keyboard :=
  let k :=
    if k.state &&& STATE_EXTENDED0 ≠ 0 then
      k.update_key (lookup translation_mapE0 a.mapE0 (keycode.toNat - 0x11))
    else k.update_key (lookup translation_map a.map keycode.toNat)
  status_check { k with state := 0 }

end Keyboard

/-- A code that `keyboard_isr` has seen the end of. -/
inductive Ended where
  | regular (extended brk : Bool) (keycode : BitVec 8)
  | pause
  deriving DecidableEq, Repr

/-- The interrupt, with the code that the byte ends. -/
def keyboard_isr (a : Around) (k : Keyboard) (keycode : BitVec 8) : Option Ended × Keyboard :=
  if keycode = 0xE0 then
    if k.state &&& STATE_EXTENDED0 ≠ 0 then
      (none, if k.state &&& ~~~STATE_PAUSE ≠ 0 then { k with state := 0 } else k)
    else (none, { k with state := k.state ||| STATE_EXTENDED0 })
  else if keycode = 0xE1 then
    if k.state &&& STATE_EXTENDED1 ≠ 0 then (none, { k with state := k.state ||| STATE_PAUSE })
    else (none, { k with state := k.state ||| STATE_EXTENDED1 })
  else if keycode = 0xF0 then
    if k.state &&& STATE_BREAK ≠ 0 then
      (none, if k.state &&& (STATE_EXTENDED1 ||| STATE_PAUSE) = 0 then { k with state := 0 } else k)
    else (none, { k with state := k.state ||| STATE_BREAK })
  else if (k.state &&& STATE_EXTENDED1 ≠ 0 ∨ k.state &&& STATE_BREAK ≠ 0) ∧
    k.state &&& STATE_PAUSE ≠ 0 then
    if keycode = 0x77 then
      (some .pause, { (k.push KEY_PAUSE).set_key KEY_PAUSE KEY_STATE_DOWN with state := 0 })
    else (none, k)
  else if k.state &&& STATE_EXTENDED1 ≠ 0 ∨ k.state &&& STATE_PAUSE ≠ 0 then (none, k)
  else
    (some (.regular (k.state &&& STATE_EXTENDED0 ≠ 0) (k.state &&& STATE_BREAK ≠ 0) keycode),
      k.regular_key a keycode)

end Condor.Kbd
