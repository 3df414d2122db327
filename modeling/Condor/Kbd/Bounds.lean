import Condor.Kbd.Codes
import Mathlib.Data.List.GetD

/-!
# The arrays of the keyboard

`isr_accesses` are the array accesses of one interrupt, in their order. They are
in bounds if the byte is no end of a key, or one that the tables cover: the
plain table has no bytes from `0x84` on, the table of the `0xE0` codes has only
those from `0x11` to `0x7D`, and its entry for `0x19` is the key `LAST_KEY`, for
which `key_states` has no room (`isr_accesses_inside_iff`).
-/

namespace Condor.Kbd

open Lib.Transducer

inductive KeyArray where
  | translation_map
  | translation_mapE0
  | key_states
  | key_buffer
  deriving DecidableEq, Repr

def KeyArray.length : KeyArray → Nat
  | .translation_map => Kbd.translation_map.length
  | .translation_mapE0 => Kbd.translation_mapE0.length
  | .key_states => LAST_KEY.toNat
  | .key_buffer => 1024

structure ArrayAccess where
  array : KeyArray
  index : Int
  deriving DecidableEq, Repr

def ArrayAccess.InBounds (x : ArrayAccess) : Prop := 0 ≤ x.index ∧ x.index < x.array.length

instance (x : ArrayAccess) : Decidable x.InBounds := inferInstanceAs (Decidable (_ ∧ _))

/-- All accesses are in bounds. -/
def Inside (l : List ArrayAccess) : Prop := ∀ x ∈ l, x.InBounds

/-! ## Accesses -/

/-- `key_states[key]`. -/
def keyAt (key : BitVec 8) : ArrayAccess := ⟨.key_states, key.toNat⟩

namespace Keyboard

def getKeyState_accesses (k : Keyboard) (key : BitVec 8) : List ArrayAccess :=
  if k.key_states key ≠ KEY_PAUSE then [keyAt key, keyAt key]
  else if k.key_states KEY_PAUSE = KEY_STATE_DOWN then [keyAt key, keyAt KEY_PAUSE, keyAt KEY_PAUSE]
  else [keyAt key, keyAt KEY_PAUSE]

def either_accesses (k : Keyboard) (key1 key2 : BitVec 8) : List ArrayAccess :=
  let r := k.not_up key1
  k.getKeyState_accesses key1 ++ if r.1 then [] else r.2.getKeyState_accesses key2

def push_accesses (k : Keyboard) : List ArrayAccess :=
  let index := if k.buffer.buffer_index = 0xFFFF then 0 else k.buffer.buffer_index
  if 1024 ≤ index then [] else [⟨.key_buffer, index⟩]

def status_accesses (k : Keyboard) : List ArrayAccess :=
  let scroll := k.not_up KEY_SCROLL_LOCK
  let num := scroll.2.not_up KEY_NUM_LOCK
  let caps := num.2.keyboard_getKeyState KEY_CAPS_LOCK
  let caps' := caps.2.keyboard_getKeyState KEY_CAPS_LOCK
  let shift := caps'.2.either_not_up KEY_LSHIFT KEY_RSHIFT
  let ctrl := shift.2.either_not_up KEY_LCTRL KEY_RCTRL
  let alt := ctrl.2.not_up KEY_LALT
  k.getKeyState_accesses KEY_SCROLL_LOCK ++ scroll.2.getKeyState_accesses KEY_NUM_LOCK ++
    num.2.getKeyState_accesses KEY_CAPS_LOCK ++ caps.2.getKeyState_accesses KEY_CAPS_LOCK ++
    caps'.2.either_accesses KEY_LSHIFT KEY_RSHIFT ++ shift.2.either_accesses KEY_LCTRL KEY_RCTRL ++
    ctrl.2.getKeyState_accesses KEY_LALT ++ alt.2.getKeyState_accesses KEY_RALT

def update_accesses (k : Keyboard) (trans : BitVec 8) : List ArrayAccess :=
  let old := k.keyboard_getKeyState trans
  let k' :=
    if old.1 = KEY_STATE_DOWN then
      if old.2.state &&& STATE_BREAK ≠ 0 then old.2.set_key trans KEY_STATE_UP
      else old.2.set_key trans KEY_STATE_HELD
    else old.2.set_key trans KEY_STATE_DOWN
  let new := k'.keyboard_getKeyState trans
  k.getKeyState_accesses trans ++ [keyAt trans] ++ k'.getKeyState_accesses trans ++
    if new.1 ≠ KEY_STATE_UP then new.2.push_accesses else []

/-- The access to the table, and the key that it gives. -/
def table_access (a : Around) (k : Keyboard) (keycode : BitVec 8) : ArrayAccess × BitVec 8 :=
  if k.state &&& STATE_EXTENDED0 ≠ 0 then
    (⟨.translation_mapE0, keycode.toNat - 0x11⟩, lookup translation_mapE0 a.mapE0 (keycode.toNat - 0x11))
  else (⟨.translation_map, keycode.toNat⟩, lookup translation_map a.map keycode.toNat)

def regular_accesses (a : Around) (k : Keyboard) (keycode : BitVec 8) : List ArrayAccess :=
  let table := k.table_access a keycode
  [table.1] ++ k.update_accesses table.2 ++ status_accesses { k.update_key table.2 with state := 0 }

end Keyboard

/-- The byte ends a regular key. -/
def EndsKey (state keycode : BitVec 8) : Prop :=
  keycode ≠ 0xE0 ∧ keycode ≠ 0xE1 ∧ keycode ≠ 0xF0 ∧ state &&& STATE_EXTENDED1 = 0 ∧ state &&& STATE_PAUSE = 0

/-- The byte ends the Pause sequence. -/
def EndsPause (state keycode : BitVec 8) : Prop :=
  keycode = 0x77 ∧ (state &&& STATE_EXTENDED1 ≠ 0 ∨ state &&& STATE_BREAK ≠ 0) ∧ state &&& STATE_PAUSE ≠ 0

instance (state keycode : BitVec 8) : Decidable (EndsKey state keycode) := inferInstanceAs (Decidable (_ ∧ _))

instance (state keycode : BitVec 8) : Decidable (EndsPause state keycode) := inferInstanceAs (Decidable (_ ∧ _))

/-- The array accesses of `keyboard_isr`. -/
def isr_accesses (a : Around) (k : Keyboard) (keycode : BitVec 8) : List ArrayAccess :=
  if EndsKey k.state keycode then k.regular_accesses a keycode
  else if EndsPause k.state keycode then k.push_accesses ++ [keyAt KEY_PAUSE]
  else []

/-- The tables and `key_states` have a place for the byte, if it ends a key. -/
def Covered (state keycode : BitVec 8) : Prop :=
  EndsKey state keycode →
    if state &&& STATE_EXTENDED0 ≠ 0 then 0x11 ≤ keycode ∧ keycode ≤ 0x7D ∧ keycode ≠ 0x19 else keycode < 0x84

instance (state keycode : BitVec 8) : Decidable (Covered state keycode) := by
  unfold Covered
  infer_instance

variable {a : Around} {k : Keyboard} {key keycode state : BitVec 8} {l l' : List ArrayAccess}

/-! ## What the interrupt does with a byte -/

/-- A byte ends a key, or the Pause sequence, or only moves the prefixes. -/
theorem isr_cases (a : Around) (k : Keyboard) (keycode : BitVec 8) :
    (EndsKey k.state keycode ∧ keyboard_isr a k keycode =
      (some (.regular (k.state &&& STATE_EXTENDED0 ≠ 0) (k.state &&& STATE_BREAK ≠ 0) keycode),
        k.regular_key a keycode)) ∨
    (EndsPause k.state keycode ∧ keyboard_isr a k keycode =
      (some .pause, { (k.push KEY_PAUSE).set_key KEY_PAUSE KEY_STATE_DOWN with state := 0 })) ∨
    (¬ EndsKey k.state keycode ∧ ¬ EndsPause k.state keycode ∧
      ∃ state, keyboard_isr a k keycode = (none, { k with state := state })) := by
  have hmoves (h : keycode = 0xE0 ∨ keycode = 0xE1 ∨ keycode = 0xF0) :
      ¬ EndsKey k.state keycode ∧ ¬ EndsPause k.state keycode := by
    rcases h with rfl | rfl | rfl <;> simp [EndsKey, EndsPause]
  by_cases h0 : keycode = 0xE0
  · refine .inr (.inr ⟨(hmoves (.inl h0)).1, (hmoves (.inl h0)).2, ?_⟩)
    unfold keyboard_isr
    rw [if_pos h0]
    split
    · split <;> exact ⟨_, rfl⟩
    · exact ⟨_, rfl⟩
  by_cases h1 : keycode = 0xE1
  · refine .inr (.inr ⟨(hmoves (.inr (.inl h1))).1, (hmoves (.inr (.inl h1))).2, ?_⟩)
    unfold keyboard_isr
    rw [if_neg h0, if_pos h1]
    split <;> exact ⟨_, rfl⟩
  by_cases h2 : keycode = 0xF0
  · refine .inr (.inr ⟨(hmoves (.inr (.inr h2))).1, (hmoves (.inr (.inr h2))).2, ?_⟩)
    unfold keyboard_isr
    rw [if_neg h0, if_neg h1, if_pos h2]
    split
    · split <;> exact ⟨_, rfl⟩
    · exact ⟨_, rfl⟩
  unfold keyboard_isr
  rw [if_neg h0, if_neg h1, if_neg h2]
  by_cases hpause : (k.state &&& STATE_EXTENDED1 ≠ 0 ∨ k.state &&& STATE_BREAK ≠ 0) ∧ k.state &&& STATE_PAUSE ≠ 0
  · have hno : ¬ EndsKey k.state keycode := fun h => hpause.2 h.2.2.2.2
    rw [if_pos hpause]
    by_cases h77 : keycode = 0x77
    · exact .inr (.inl ⟨⟨h77, hpause⟩, if_pos h77⟩)
    · exact .inr (.inr ⟨hno, fun h => h77 h.1, k.state, if_neg h77⟩)
  · rw [if_neg hpause]
    by_cases hwait : k.state &&& STATE_EXTENDED1 ≠ 0 ∨ k.state &&& STATE_PAUSE ≠ 0
    · refine .inr (.inr ⟨fun h => ?_, fun h => hpause h.2, k.state, if_pos hwait⟩)
      exact hwait.elim (fun hw => hw h.2.2.2.1) fun hw => hw h.2.2.2.2
    · obtain ⟨hext, hpaused⟩ := not_or.mp hwait
      exact .inl ⟨⟨h0, h1, h2, not_not.mp hext, not_not.mp hpaused⟩, if_neg hwait⟩

theorem Keyboard.regular_key_eq (a : Around) (k : Keyboard) (keycode : BitVec 8) :
    k.regular_key a keycode = status_check { k.update_key (k.table_access a keycode).2 with state := 0 } := by
  unfold regular_key table_access
  split <;> rfl

/-! ## Accesses in bounds -/

theorem inside_append : Inside (l ++ l') ↔ Inside l ∧ Inside l' := List.forall_mem_append

theorem inside_singleton {x : ArrayAccess} : Inside [x] ↔ x.InBounds := List.forall_mem_singleton

theorem inside_nil : Inside [] := List.forall_mem_nil _

theorem inside_ite {c : Prop} [Decidable c] (h : Inside l) (h' : Inside l') : Inside (if c then l else l') := by
  split <;> assumption

theorem keyAt_inBounds : (keyAt key).InBounds ↔ key < LAST_KEY := by
  simp [ArrayAccess.InBounds, keyAt, KeyArray.length, BitVec.lt_def]

theorem Keyboard.getKeyState_inside (k : Keyboard) (hkey : key < LAST_KEY) : Inside (k.getKeyState_accesses key) := by
  have hin : (keyAt key).InBounds := keyAt_inBounds.mpr hkey
  have hpause : (keyAt KEY_PAUSE).InBounds := by decide
  unfold getKeyState_accesses
  split
  · simp [Inside, hin]
  · split <;> simp [Inside, hin, hpause]

theorem Keyboard.either_inside (k : Keyboard) {key1 key2 : BitVec 8} (h1 : key1 < LAST_KEY) (h2 : key2 < LAST_KEY) :
    Inside (k.either_accesses key1 key2) := by
  unfold either_accesses
  dsimp only
  exact inside_append.mpr ⟨k.getKeyState_inside h1, inside_ite inside_nil (getKeyState_inside _ h2)⟩

theorem Keyboard.push_inside (k : Keyboard) : Inside k.push_accesses := by
  unfold push_accesses
  dsimp only
  generalize (if k.buffer.buffer_index = 0xFFFF then 0 else k.buffer.buffer_index) = index
  split
  · exact inside_nil
  · refine inside_singleton.mpr ⟨Int.natCast_nonneg index, ?_⟩
    simp only [KeyArray.length]
    omega

/-- The keys that the status is about are all in the array. -/
theorem Keyboard.status_inside (k : Keyboard) : Inside k.status_accesses := by
  unfold status_accesses
  simp only [inside_append]
  refine ⟨⟨⟨⟨⟨⟨⟨?_, ?_⟩, ?_⟩, ?_⟩, ?_⟩, ?_⟩, ?_⟩, ?_⟩
  · exact getKeyState_inside _ (by decide)
  · exact getKeyState_inside _ (by decide)
  · exact getKeyState_inside _ (by decide)
  · exact getKeyState_inside _ (by decide)
  · exact either_inside _ (by decide) (by decide)
  · exact either_inside _ (by decide) (by decide)
  · exact getKeyState_inside _ (by decide)
  · exact getKeyState_inside _ (by decide)

/-- An update stays in its arrays if and only if the key is in `key_states`. -/
theorem Keyboard.update_inside_iff (k : Keyboard) : Inside (k.update_accesses key) ↔ key < LAST_KEY := by
  unfold update_accesses
  dsimp only
  rw [inside_append, inside_append, inside_append, inside_singleton, keyAt_inBounds]
  exact ⟨fun h => h.1.1.2, fun hkey => ⟨⟨⟨getKeyState_inside _ hkey, hkey⟩, getKeyState_inside _ hkey⟩,
    inside_ite (push_inside _) inside_nil⟩⟩

theorem lookup_inside {table : List (BitVec 8)} (around : Int → BitVec 8) {i : Nat} (hi : i < table.length) :
    lookup table around i = table[i] := by
  rw [lookup, if_neg (by omega), Int.toNat_natCast, List.getD_eq_getElem _ _ hi]

/-- Only the key for `0xE0` and `0x19` has no place in `key_states`. -/
theorem mapE0_lt_iff : ∀ i (hi : i < translation_mapE0.length), translation_mapE0[i] < LAST_KEY ↔ i ≠ 8 := by
  decide

theorem map_lt {i : Nat} (hi : i < translation_map.length) : translation_map[i] < LAST_KEY := by
  have hall : translation_map.all (·.ult LAST_KEY) = true := rfl
  exact BitVec.ult_iff_lt.mp (List.all_eq_true.mp hall _ (List.getElem_mem hi))

/-- The table has an entry for the byte, and it is a key of the array, if and only if the byte is covered. -/
theorem Keyboard.table_inside_iff (a : Around) (k : Keyboard) (keycode : BitVec 8) :
    (k.table_access a keycode).1.InBounds ∧ (k.table_access a keycode).2 < LAST_KEY ↔
      if k.state &&& STATE_EXTENDED0 ≠ 0 then 0x11 ≤ keycode ∧ keycode ≤ 0x7D ∧ keycode ≠ 0x19
      else keycode < 0x84 := by
  have hlt := keycode.isLt
  unfold table_access
  split
  · have hlen : translation_mapE0.length = 109 := rfl
    have hkey : 0x11 ≤ keycode ∧ keycode ≤ 0x7D ∧ keycode ≠ 0x19 ↔
        0x11 ≤ keycode.toNat ∧ keycode.toNat ≤ 0x7D ∧ keycode.toNat ≠ 0x19 := by
      simp [BitVec.le_def, ← BitVec.toNat_inj]
    have hbounds : (ArrayAccess.mk .translation_mapE0 (keycode.toNat - 0x11)).InBounds ↔
        0x11 ≤ keycode.toNat ∧ keycode.toNat ≤ 0x7D := by
      simp only [ArrayAccess.InBounds, KeyArray.length, hlen]
      omega
    rw [hkey, hbounds, and_assoc]
    refine and_congr_right fun hlow => and_congr_right fun hhigh => ?_
    have hsub : (keycode.toNat : Int) - 0x11 = ((keycode.toNat - 0x11 : Nat) : Int) := by omega
    dsimp only
    rw [hsub, lookup_inside a.mapE0 (by omega), mapE0_lt_iff]
    omega
  · have hlen : translation_map.length = 132 := rfl
    have hkey : keycode < 0x84 ↔ keycode.toNat < 132 := by simp [BitVec.lt_def]
    have hbounds : (ArrayAccess.mk .translation_map keycode.toNat).InBounds ↔ keycode.toNat < 132 := by
      simp only [ArrayAccess.InBounds, KeyArray.length, hlen]
      omega
    rw [hkey, hbounds, and_iff_left_iff_imp]
    intro hin
    dsimp only
    rw [lookup_inside a.map (by omega)]
    exact map_lt _

/-- The accesses for one byte are in bounds if and only if it is covered. -/
theorem isr_accesses_inside (a : Around) (k : Keyboard) (keycode : BitVec 8) :
    Inside (isr_accesses a k keycode) ↔ Covered k.state keycode := by
  unfold isr_accesses Covered
  by_cases hkey : EndsKey k.state keycode
  · rw [if_pos hkey, ← k.table_inside_iff a, forall_prop_of_true hkey]
    unfold Keyboard.regular_accesses
    dsimp only
    rw [inside_append, inside_append, inside_singleton, Keyboard.update_inside_iff,
      and_iff_left (Keyboard.status_inside _)]
  · rw [if_neg hkey]
    refine iff_of_true ?_ fun h => absurd h hkey
    exact inside_ite (inside_append.mpr ⟨k.push_inside, inside_singleton.mpr (by decide)⟩) inside_nil

/-- **The arrays of the keyboard.** In a run from the reset all array accesses are in bounds if and only if
every byte is covered in the state that it comes in. -/
theorem isr_accesses_inside_iff (a : Around) (k : Keyboard) (bytes : List (BitVec 8)) :
    Along (keyboard_isr a) (fun k keycode => Inside (isr_accesses a k keycode)) k.keyboard_resetState bytes ↔
      Along (keyboard_isr a) (fun k keycode => Covered k.state keycode) k.keyboard_resetState bytes := by
  simp only [isr_accesses_inside]

/-- A keyboard with all variables zero, and zeros around its tables. -/
def blank : Keyboard := ⟨fun _ => 0, ⟨0, fun _ => 0⟩, 0, 0, 0⟩

def Around.zero : Around := ⟨fun _ => 0, fun _ => 0⟩

/-- The answer of a keyboard that has passed its test is looked up behind the table, and the key of `0xE0` and
`0x19` has its state behind `key_states`. -/
theorem accesses_outside :
    (⟨.translation_map, 0xAA⟩ : ArrayAccess) ∈ isr_accesses .zero blank.keyboard_resetState 0xAA ∧
    ¬ (⟨.translation_map, 0xAA⟩ : ArrayAccess).InBounds ∧
    ¬ Along (keyboard_isr .zero) (fun k keycode => Inside (isr_accesses .zero k keycode))
      blank.keyboard_resetState [0xAA] ∧
    ¬ Along (keyboard_isr .zero) (fun k keycode => Inside (isr_accesses .zero k keycode))
      blank.keyboard_resetState [0xE0, 0x19] := by
  refine ⟨?_, by simp [ArrayAccess.InBounds, KeyArray.length, translation_map], ?_, ?_⟩
  · unfold isr_accesses
    rw [if_pos (by decide)]
    exact List.mem_append_left _ (List.mem_append_left _ (List.mem_singleton.mpr rfl))
  · simp only [isr_accesses_inside]
    decide
  · simp only [isr_accesses_inside]
    decide

end Condor.Kbd
