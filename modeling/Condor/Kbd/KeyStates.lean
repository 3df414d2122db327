import Condor.Kbd.Codes
import Mathlib.Algebra.Group.Nat.Even
import Mathlib.Data.List.GetD

/-!
# Key states

The state of a key counts its makes only up to parity: the second make since a
break leaves the key held, the third down again. The break of a held key does
not release it but puts it down, so the states follow the codes exactly if each
break ends an odd number of makes (`key_states_iff`).
-/

namespace Condor.Kbd

open Lib.Transducer

variable {a : Around} {k : Keyboard} {key : BitVec 8}

/-! ## Strokes -/

/-- A scan code that stands for a key. -/
abbrev ScanCode := { c : BitVec 8 // translation_map.getD c.toNat KEY_NONE ≠ KEY_NONE }

/-- The key of a scan code. -/
def keyOf (c : ScanCode) : BitVec 8 := translation_map.getD c.1.toNat KEY_NONE

/-- A make or break of an ordinary key. -/
structure Stroke where
  brk : Bool
  code : ScanCode

theorem ScanCode.lt_length (c : ScanCode) : c.1.toNat < translation_map.length := by
  by_contra hge
  exact c.2 (List.getD_eq_default _ _ (not_lt.mp hge))

/-- A scan code is not one of the prefixes, which are past the table's end. -/
def ScanCode.byte (c : ScanCode) : KeyByte := by
  have hlen : c.1.toNat < 132 := c.lt_length
  exact ⟨c.1, by rintro h; simp [h] at hlen, by rintro h; simp [h] at hlen, by rintro h; simp [h] at hlen⟩

def Stroke.toCode (s : Stroke) : Code := .key false s.brk s.code.byte

/-- The keyboard after a reset and a sequence of strokes. -/
def strokes (a : Around) (k : Keyboard) (l : List Stroke) : Keyboard :=
  run (keyboard_isr a) k.keyboard_resetState ((l.map Stroke.toCode).flatMap Code.encode)

/-- The makes of `key` since its last break. -/
def makes (key : BitVec 8) (l : List Stroke) : Nat :=
  l.foldl (fun n s => if keyOf s.code = key then (if s.brk then 0 else n + 1) else n) 0

/-- The most recent code for `key` was a make. -/
def LastMake (key : BitVec 8) (l : List Stroke) : Prop :=
  ∃ s, (l.filter (keyOf ·.code = key)).getLast? = some s ∧ s.brk = false

/-- Each break ends an odd number of makes of its key. -/
def OddBreaks (l : List Stroke) : Prop :=
  ∀ pre s post, l = pre ++ s :: post → s.brk = true → Odd (makes (keyOf s.code) pre)

/-- The state that `n` makes since the last break leave. -/
def stateOf (n : Nat) : BitVec 8 :=
  if n = 0 then KEY_STATE_UP else if n % 2 = 1 then KEY_STATE_DOWN else KEY_STATE_HELD

theorem makes_concat (key : BitVec 8) (l : List Stroke) (s : Stroke) : makes key (l ++ [s]) =
    if keyOf s.code = key then (if s.brk then 0 else makes key l + 1) else makes key l := by
  rw [makes, List.foldl_append]
  rfl

theorem lastMake_iff {l : List Stroke} : LastMake key l ↔ 0 < makes key l := by
  induction l using List.reverseRecOn with
  | nil => exact ⟨nofun, fun h => absurd h (Nat.lt_irrefl 0)⟩
  | append_singleton l s ih =>
    rw [makes_concat]
    unfold LastMake
    rw [List.filter_append]
    by_cases hk : keyOf s.code = key
    · rw [List.filter_singleton, decide_eq_true hk, if_pos hk, cond_true, List.getLast?_concat]
      cases hb : s.brk <;> simp [hb]
    · rw [List.filter_singleton, decide_eq_false hk, if_neg hk, cond_false, List.append_nil]
      exact ih

instance (key : BitVec 8) (l : List Stroke) : Decidable (LastMake key l) :=
  decidable_of_iff _ lastMake_iff.symm

theorem oddBreaks_concat {l : List Stroke} {s : Stroke} :
    OddBreaks (l ++ [s]) ↔ OddBreaks l ∧ (s.brk = true → Odd (makes (keyOf s.code) l)) := by
  refine ⟨fun h => ⟨fun pre t post hl => h pre t (post ++ [s]) (by simp [hl]), h l s [] rfl⟩, ?_⟩
  rintro ⟨hl, hs⟩ pre t post heq
  rcases post.eq_nil_or_concat with rfl | ⟨post, b, rfl⟩
  · obtain ⟨rfl, hst⟩ := List.append_inj' heq rfl
    rwa [← List.singleton_inj.mp hst]
  · rw [List.concat_eq_append, ← List.cons_append, ← List.append_assoc] at heq
    exact hl pre t post (List.append_inj' heq rfl).1

/-! ## What a stroke does -/

/-- The state of a key after a make or break in state `old`. -/
def nextState (old : BitVec 8) (brk : Bool) : BitVec 8 :=
  if old = KEY_STATE_DOWN then (if brk then KEY_STATE_UP else KEY_STATE_HELD) else KEY_STATE_DOWN

/-- No key is in the state that `keyboard_getKeyState` takes for Pause. -/
def Sane (k : Keyboard) : Prop := ∀ key < LAST_KEY, k.key_states key ≠ KEY_PAUSE

theorem Sane.getKeyState (h : Sane k) (hkey : key < LAST_KEY) :
    k.keyboard_getKeyState key = (k.key_states key, k) := if_pos (h key hkey)

theorem Sane.not_up (h : Sane k) (hkey : key < LAST_KEY) :
    k.not_up key = (decide (k.key_states key ≠ KEY_STATE_UP), k) := by
  rw [Keyboard.not_up, h.getKeyState hkey]

theorem Sane.either_not_up (h : Sane k) {key1 key2 : BitVec 8} (h1 : key1 < LAST_KEY)
    (h2 : key2 < LAST_KEY) :
    k.either_not_up key1 key2 =
      (decide (k.key_states key1 ≠ KEY_STATE_UP ∨ k.key_states key2 ≠ KEY_STATE_UP), k) := by
  rw [Keyboard.either_not_up, h.not_up h1, h.not_up h2]
  by_cases hup : k.key_states key1 = KEY_STATE_UP <;> simp [hup]

/-- The status that the status check finds. -/
def Keyboard.new_status (k : Keyboard) : BitVec 8 :=
  let new_status := put k.status STATUS_SCROLL_LOCK (k.key_states KEY_SCROLL_LOCK ≠ KEY_STATE_UP)
  let new_status := put new_status STATUS_NUM_LOCK (k.key_states KEY_NUM_LOCK ≠ KEY_STATE_UP)
  let new_status :=
    if k.key_states KEY_CAPS_LOCK = KEY_STATE_DOWN ∧ k.last_caps_state &&& 0b011 = KEY_STATE_UP then
      new_status ^^^ STATUS_CAPS
    else new_status
  let new_status := put new_status STATUS_SHIFT
    (k.key_states KEY_LSHIFT ≠ KEY_STATE_UP ∨ k.key_states KEY_RSHIFT ≠ KEY_STATE_UP)
  let new_status := put new_status STATUS_CTRL
    (k.key_states KEY_LCTRL ≠ KEY_STATE_UP ∨ k.key_states KEY_RCTRL ≠ KEY_STATE_UP)
  let new_status := put new_status STATUS_ALT (k.key_states KEY_LALT ≠ KEY_STATE_UP)
  put new_status STATUS_ALTGR (k.key_states KEY_RALT ≠ KEY_STATE_UP)

/-- The status check of a keyboard whose keys are all read as they are. -/
theorem Sane.status_check_eq (h : Sane k) :
    k.status_check = { k with
      status := k.new_status
      last_caps_state := (k.last_caps_state &&& 0b100) ||| (k.key_states KEY_CAPS_LOCK &&& 0x3) } := by
  have hlt : ∀ key ∈ [KEY_SCROLL_LOCK, KEY_NUM_LOCK, KEY_CAPS_LOCK, KEY_LSHIFT, KEY_RSHIFT, KEY_LCTRL,
    KEY_RCTRL, KEY_LALT, KEY_RALT], key < LAST_KEY := by decide
  simp only [List.forall_mem_cons] at hlt
  obtain ⟨h1, h2, h3, h4, h5, h6, h7, h8, h9, -⟩ := hlt
  unfold Keyboard.status_check
  simp only [h.not_up h1, h.not_up h2, h.getKeyState h3, h.either_not_up h4 h5, h.either_not_up h6 h7,
    h.not_up h8, h.not_up h9, Keyboard.new_status]

theorem Sane.status_check (h : Sane k) : k.status_check.key_states = k.key_states := by
  rw [h.status_check_eq]

theorem nextState_ne_pause (old : BitVec 8) (brk : Bool) : nextState old brk ≠ KEY_PAUSE := by
  unfold nextState
  split
  · split <;> decide
  · decide

theorem Sane.of_update (h : Sane k) {k' : Keyboard} {old : BitVec 8} {brk : Bool}
    (hk : k'.key_states = Function.update k.key_states key (nextState old brk)) : Sane k' := by
  intro key' hkey
  rw [hk]
  by_cases heq : key' = key
  · rw [heq, Function.update_self]
    exact nextState_ne_pause old brk
  · rw [Function.update_of_ne heq]
    exact h key' hkey

/-- An update sets the state of its key, and pushes the key unless it is up now. -/
theorem Sane.update_key_eq (h : Sane k) (hkey : key < LAST_KEY) {brk : Bool}
    (hbrk : k.state &&& STATE_BREAK ≠ 0 ↔ brk = true) :
    k.update_key key =
      if nextState (k.key_states key) brk ≠ KEY_STATE_UP
      then (k.set_key key (nextState (k.key_states key) brk)).push key
      else k.set_key key (nextState (k.key_states key) brk) := by
  have hset : (if k.key_states key = KEY_STATE_DOWN then
      if k.state &&& STATE_BREAK ≠ 0 then k.set_key key KEY_STATE_UP else k.set_key key KEY_STATE_HELD
      else k.set_key key KEY_STATE_DOWN) = k.set_key key (nextState (k.key_states key) brk) := by
    unfold nextState
    simp only [hbrk]
    split
    · split <;> rfl
    · rfl
  have hnext : Sane (k.set_key key (nextState (k.key_states key) brk)) := h.of_update rfl
  have hnew : (k.set_key key (nextState (k.key_states key) brk)).key_states key =
      nextState (k.key_states key) brk := Function.update_self ..
  unfold Keyboard.update_key
  simp only [h.getKeyState hkey]
  rw [hset, hnext.getKeyState hkey, hnew]

theorem Sane.update_key (h : Sane k) (hkey : key < LAST_KEY) {brk : Bool}
    (hbrk : k.state &&& STATE_BREAK ≠ 0 ↔ brk = true) :
    (k.update_key key).key_states =
      Function.update k.key_states key (nextState (k.key_states key) brk) := by
  rw [h.update_key_eq hkey hbrk]
  split <;> rfl

theorem keyOf_lt (c : ScanCode) : keyOf c < LAST_KEY := by
  have hall : translation_map.all (·.ult LAST_KEY) = true := rfl
  rw [keyOf, List.getD_eq_getElem _ _ c.lt_length, ← BitVec.ult_iff_lt]
  exact List.all_eq_true.mp hall _ (List.getElem_mem _)

/-- A stroke moves the state of its key. -/
theorem Sane.stroke (h : Sane k) (s : Stroke) : (s.toCode.effect a k).key_states =
    Function.update k.key_states (keyOf s.code) (nextState (k.key_states (keyOf s.code)) s.brk) := by
  have htrans : lookup translation_map a.map s.code.1.toNat = keyOf s.code := by
    rw [lookup, if_neg (by omega), Int.toNat_natCast, keyOf, List.getD_eq_getElem _ _ s.code.lt_length,
      List.getD_eq_getElem _ _ s.code.lt_length]
  have hplain : ¬ Code.flags false s.brk &&& STATE_EXTENDED0 ≠ 0 := by cases s.brk <;> decide
  have hs : Sane { k with state := Code.flags false s.brk } := h
  have hbrk : Code.flags false s.brk &&& STATE_BREAK ≠ 0 ↔ s.brk = true := by cases s.brk <;> decide
  have hupdate := hs.update_key (keyOf_lt s.code) hbrk
  have hcheck : Sane { Keyboard.update_key { k with state := Code.flags false s.brk } (keyOf s.code) with
      state := 0 } := h.of_update hupdate
  change (Keyboard.regular_key a { k with state := Code.flags false s.brk } s.code.1).key_states = _
  unfold Keyboard.regular_key
  dsimp only
  rw [if_neg hplain, htrans, hcheck.status_check]
  exact hupdate

/-! ## Runs of strokes -/

/-- The keyboard has the state of every key that the makes since its last break leave. -/
structure Tracks (k : Keyboard) (l : List Stroke) : Prop where
  state : k.state = 0
  keys : ∀ key < LAST_KEY, k.key_states key = stateOf (makes key l)

theorem stateOf_ne_pause (n : Nat) : stateOf n ≠ KEY_PAUSE := by
  unfold stateOf
  split
  · decide
  · split <;> decide

theorem stateOf_eq_up_iff {n : Nat} : stateOf n = KEY_STATE_UP ↔ n = 0 := by
  unfold stateOf
  split
  · simp [*]
  · split <;> simp [*, KEY_STATE_UP, KEY_STATE_DOWN, KEY_STATE_HELD]

theorem stateOf_eq_down_iff {n : Nat} : stateOf n = KEY_STATE_DOWN ↔ Odd n := by
  rw [Nat.odd_iff]
  unfold stateOf
  split
  · simp [*, KEY_STATE_UP, KEY_STATE_DOWN]
  · split <;> simp [*, KEY_STATE_DOWN, KEY_STATE_HELD]

theorem Tracks.sane {l : List Stroke} (h : Tracks k l) : Sane k := fun key hkey => by
  rw [h.keys key hkey]
  exact stateOf_ne_pause _

theorem strokes_concat (l : List Stroke) (s : Stroke) :
    strokes a k (l ++ [s]) = run (keyboard_isr a) (strokes a k l) s.toCode.encode := by
  rw [strokes, List.map_append, List.flatMap_append, run_append, List.map_singleton, List.flatMap_singleton]
  rfl

/-- One more make moves on, and a break after an odd number of makes releases the key. -/
theorem nextState_stateOf {n : Nat} {brk : Bool} (h : brk = true → Odd n) :
    nextState (stateOf n) brk = stateOf (if brk then 0 else n + 1) := by
  unfold nextState
  cases brk with
  | false =>
    by_cases hn : Odd n
    · have heven : ¬ ((n + 1) % 2 = 1) := by
        have := Nat.odd_iff.mp hn
        omega
      rw [if_pos (stateOf_eq_down_iff.mpr hn)]
      simp [stateOf, heven]
    · rw [if_neg (mt stateOf_eq_down_iff.mp hn)]
      exact (stateOf_eq_down_iff.mpr (Nat.odd_add_one.mpr hn)).symm
  | true => rw [if_pos (stateOf_eq_down_iff.mpr (h rfl))]; rfl

/-- Any other break leaves the key down. -/
theorem nextState_even {n : Nat} (h : ¬ Odd n) : nextState (stateOf n) true = KEY_STATE_DOWN :=
  if_neg (mt stateOf_eq_down_iff.mp h)

theorem Tracks.stroke {l : List Stroke} (h : Tracks k l) {s : Stroke}
    (hodd : s.brk = true → Odd (makes (keyOf s.code) l)) :
    Tracks (run (keyboard_isr a) k s.toCode.encode) (l ++ [s]) := by
  obtain ⟨-, hrun⟩ := isr_code (a := a) h.state s.toCode
  rw [hrun]
  refine ⟨s.toCode.effect_state a k, fun key hkey => ?_⟩
  rw [h.sane.stroke, makes_concat]
  by_cases heq : keyOf s.code = key
  · rw [if_pos heq, ← heq, Function.update_self, h.keys _ (keyOf_lt s.code), nextState_stateOf hodd]
  · rw [if_neg heq, Function.update_of_ne (Ne.symm heq)]
    exact h.keys key hkey

theorem Tracks.start (k : Keyboard) : Tracks k.keyboard_resetState [] :=
  ⟨rfl, fun _ hkey => if_pos hkey⟩

theorem Tracks.strokes {l : List Stroke} (h : OddBreaks l) : Tracks (strokes a k l) l := by
  induction l using List.reverseRecOn with
  | nil => exact .start k
  | append_singleton l s ih =>
    obtain ⟨hl, hs⟩ := oddBreaks_concat.mp h
    rw [strokes_concat]
    exact (ih hl).stroke hs

theorem Tracks.lastMake_iff {l : List Stroke} (h : Tracks k l) (hkey : key < LAST_KEY) :
    k.key_states key ≠ KEY_STATE_UP ↔ LastMake key l := by
  rw [Kbd.lastMake_iff, h.keys key hkey, ne_eq, stateOf_eq_up_iff, Nat.pos_iff_ne_zero]

theorem OddBreaks.of_prefix {pre l : List Stroke} (h : OddBreaks l) (hpre : pre <+: l) :
    OddBreaks pre := by
  obtain ⟨rest, rfl⟩ := hpre
  rintro p s post rfl
  exact h p s (post ++ rest) (by simp)

/-- **Key states.** After every code of a sequence, a key's state differs from up exactly if its
most recent code was a make, if and only if each break ends an odd number of makes of its key. -/
theorem key_states_iff (a : Around) (k : Keyboard) (l : List Stroke) :
    (∀ pre, pre <+: l → ∀ key < LAST_KEY,
      ((strokes a k pre).key_states key ≠ KEY_STATE_UP ↔ LastMake key pre)) ↔ OddBreaks l := by
  constructor
  · intro h
    induction l using List.reverseRecOn with
    | nil => exact fun pre s post hnil => by simp at hnil
    | append_singleton l s ih =>
      have hl := ih fun pre hpre => h pre (hpre.trans (List.prefix_append l [s]))
      have htracks : Tracks (strokes a k l) l := .strokes hl
      refine oddBreaks_concat.mpr ⟨hl, fun hbrk => ?_⟩
      -- a break after an even number of makes leaves the key down
      by_contra hodd
      have hdown : (strokes a k (l ++ [s])).key_states (keyOf s.code) = KEY_STATE_DOWN := by
        obtain ⟨-, hrun⟩ := isr_code (a := a) htracks.state s.toCode
        rw [strokes_concat, hrun, htracks.sane.stroke, Function.update_self,
          htracks.keys _ (keyOf_lt s.code), hbrk, nextState_even hodd]
      have hmake := (h (l ++ [s]) List.prefix_rfl _ (keyOf_lt s.code)).mp (by rw [hdown]; decide)
      rw [lastMake_iff, makes_concat, if_pos rfl, if_pos hbrk] at hmake
      exact absurd hmake (Nat.lt_irrefl 0)
  · intro h pre hpre key hkey
    exact (Tracks.strokes (h.of_prefix hpre)).lastMake_iff hkey

/-- The scan code of `KEY_A`. -/
def scanA : ScanCode := ⟨0x1C, by decide⟩

/-- A key that repeats once stays down when it is released. -/
theorem break_of_held_key :
    let l := [⟨false, scanA⟩, ⟨false, scanA⟩, ⟨true, scanA⟩]
    let k := strokes ⟨fun _ => 0, fun _ => 0⟩ ⟨fun _ => 0, ⟨0, fun _ => 0⟩, 0, 0, 0⟩ l
    k.key_states KEY_A ≠ KEY_STATE_UP ∧ ¬ LastMake KEY_A l := by
  decide

end Condor.Kbd
