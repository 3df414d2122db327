import Mathlib.Data.BitVec
import Mathlib.Data.List.Induction
import Mathlib.Data.Nat.Digits.Lemmas

/-!
# Numbers as text

`itoa` and `ultoa` put the digits of a number into a buffer, the last digit
first, and then reverse them in place (`itoa_chars`, `ultoa_chars`). For bases up
to 16 the result is the numeral of the number (`itoa_spec`, `ultoa_spec`). But
`itoa` leaves the table of digits for the least `int`, which has no positive
counterpart.
-/

namespace Condor.Libc

abbrev Byte := BitVec 8

def ascii (c : Char) : Byte := BitVec.ofNat 8 c.toNat

/-- Why a call does not return: an access outside of the objects it was given, or no fuel. -/
inductive Stop where
  | wild
  | pending
  deriving DecidableEq, Repr

/-- The bytes from a pointer on. -/
abbrev Buffer := Nat → Byte

/-! ## The code -/

def DIGITS : List Byte :=
  ['0', '1', '2', '3', '4', '5', '6', '7', '8', '9', 'A', 'B', 'C', 'D', 'E', 'F', 'G', 'H', 'I', 'J', 'K',
    'L', 'M', 'N', 'O', 'P', 'Q', 'R', 'S', 'T', 'U', 'V', 'W', 'X', 'Y', 'Z'].map ascii

/-- `"0123456789ABCDEFGHIJKLMNOPQRSTUVWXYZ"[i]`. -/
def digit (i : Int) : Except Stop Byte :=
  if i < 0 then .error .wild
  else if i = 36 then .ok 0#8
  else match DIGITS[i.toNat]? with
    | some c => .ok c
    | none => .error .wild

def put_digits (base : Nat) : Nat → Int → Nat → Buffer → Except Stop (Nat × Buffer)
  | 0, _, _, _ => .error .pending
  | fuel + 1, value, index, str =>
    if value = 0 then .ok (index, str)
    else do
      let c ← digit (value.tmod base)
      put_digits base fuel (value.tdiv base) (index + 1) (Function.update str index c)

/-- The loop that reverses the string. -/
def swap_ends (start : Nat) : Nat → Buffer → Buffer
  | 0, str => str
  | index + 1, str =>
    if start < index + 1 then
      swap_ends (start + 1) index
        (Function.update (Function.update str (index + 1) (str start)) start (str (index + 1)))
    else str

/-- From the loop over the digits on. A `value` of 32 bits has at most 32 digits. -/
def convert (value : Int) (str : Buffer) (base start : Nat) : Except Stop Buffer := do
  let (index, str) ← put_digits base 33 value start str
  .ok (swap_ends start (index - 1) (Function.update str index 0#8))

def zero (str : Buffer) : Buffer := Function.update (Function.update str 0 (ascii '0')) 1 0#8

def itoa (value : BitVec 32) (str : Buffer) (base : Nat) : Except Stop Buffer :=
  if base < 2 ∨ 36 < base then .ok str
  else if value = 0#32 then .ok (zero str)
  else if value.toInt < 0 then
    convert (~~~value + 1#32).toInt (Function.update str 0 (ascii '-')) base 1
  else convert value.toInt str base 0

def ultoa (value : BitVec 32) (str : Buffer) (base : Nat) : Except Stop Buffer :=
  if base < 2 ∨ 36 < base then .ok str
  else if value = 0#32 then .ok (zero str)
  else convert value.toNat str base 0

/-- The string in a buffer of 65 bytes: its length is what `strlen` returns. -/
def string (str : Buffer) : List Byte := ((List.range 65).map str).takeWhile (· ≠ 0#8)

def char_bitmap : List (BitVec 8) :=
  [0x08, 0x08, 0x08, 0x08, 0x08, 0x08, 0x08, 0x08, 0x08, 0x98, 0x18, 0x18, 0x18, 0x18, 0x08, 0x08,
   0x08, 0x08, 0x08, 0x08, 0x08, 0x08, 0x08, 0x08, 0x08, 0x08, 0x08, 0x08, 0x08, 0x08, 0x08, 0x08,
   0x90, 0x20, 0x20, 0x20, 0x20, 0x20, 0x20, 0x20, 0x20, 0x20, 0x20, 0x20, 0x20, 0x20, 0x20, 0x20,
   0x44, 0x44, 0x44, 0x44, 0x44, 0x44, 0x44, 0x44, 0x44, 0x44, 0x20, 0x20, 0x20, 0x20, 0x20, 0x20,
   0x20, 0x41, 0x41, 0x41, 0x41, 0x41, 0x41, 0x01, 0x01, 0x01, 0x01, 0x01, 0x01, 0x01, 0x01, 0x01,
   0x01, 0x01, 0x01, 0x01, 0x01, 0x01, 0x01, 0x01, 0x01, 0x01, 0x01, 0x20, 0x20, 0x20, 0x20, 0x20,
   0x20, 0x42, 0x42, 0x42, 0x42, 0x42, 0x42, 0x02, 0x02, 0x02, 0x02, 0x02, 0x02, 0x02, 0x02, 0x02,
   0x02, 0x02, 0x02, 0x02, 0x02, 0x02, 0x02, 0x02, 0x02, 0x02, 0x02, 0x20, 0x20, 0x20, 0x20, 0x08] ++
  List.replicate 128 0x00

/-- A `char` is signed: the upper half of the bytes is looked up before the table. -/
def tolower (c : Byte) : Except Stop Byte :=
  if c.toInt < 0 then .error .wild
  else match char_bitmap[c.toNat]? with
    | some bits => .ok (if bits &&& 0x03#8 = 0#8 then c else c ||| 0x20#8)
    | none => .error .wild

/-- `for (i = 0; i < strlen(buffer); i++) buffer[i] = tolower(buffer[i])`. -/
def lower_string : Nat → Nat → Buffer → Except Stop Buffer
  | 0, _, _ => .error .pending
  | fuel + 1, i, str =>
    if i < (string str).length then do
      let c ← tolower (str i)
      lower_string fuel (i + 1) (Function.update str i c)
    else .ok str

/-! ## Numerals -/

/-- The numeral with digits in upper case. -/
def numeral (base n : Nat) : List Byte := (Nat.toDigits base n).map fun c => ascii c.toUpper

def decimal (n : Nat) : List Byte := (Nat.toDigits 10 n).map ascii

def hexadecimal (n : Nat) : List Byte := (Nat.toDigits 16 n).map ascii

def signed (v : BitVec 32) : List Byte :=
  if v.toInt < 0 then ascii '-' :: decimal v.toInt.natAbs else decimal v.toInt.natAbs

/-- The least `int`. -/
def INT_MIN : BitVec 32 := 0x80000000#32

variable {str : Buffer} {l r : List Byte} {c : Byte} {base n fuel : Nat}

theorem numeral_eq (hbase : 1 < base) (n : Nat) : numeral base n =
    if n < base then [ascii n.digitChar.toUpper]
    else numeral base (n / base) ++ [ascii (n % base).digitChar.toUpper] := by
  unfold numeral
  rw [Nat.toDigits_eq_if hbase]
  split
  · rfl
  · rw [List.map_append]
    rfl

/-! ## The digits of a number -/

/-- Digit `d` of the table. -/
def digit_char (d : Nat) : Byte := DIGITS.getD d 0#8

theorem digit_char_get {d : Nat} (h : d < 36) : DIGITS[d]? = some (digit_char d) := by
  revert d
  decide

theorem digit_nat {d : Nat} (h : d < 36) : digit d = .ok (digit_char d) := by
  unfold digit
  rw [if_neg (by omega), if_neg (by omega), Int.toNat_natCast, digit_char_get h]

theorem digit_char_upper {d : Nat} (h : d < 16) : digit_char d = ascii d.digitChar.toUpper := by
  revert d
  decide

/-- The characters of `n`, the last digit first. -/
def digit_chars (base n : Nat) : List Byte := (Nat.digits base n).map digit_char

theorem digit_chars_zero : digit_chars base 0 = [] := by simp [digit_chars]

theorem digit_chars_pos (hbase : 1 < base) (hn : 0 < n) :
    digit_chars base n = digit_char (n % base) :: digit_chars base (n / base) := by
  unfold digit_chars
  rw [Nat.digits_def' hbase hn, List.map_cons]

theorem digit_chars_length (hbase : 1 < base) (hn : n < 2 ^ 32) : (digit_chars base n).length ≤ 32 := by
  rw [digit_chars, List.length_map, Nat.digits_length_le_iff hbase]
  exact lt_of_lt_of_le hn (Nat.pow_le_pow_left hbase 32)

theorem digit_char_ne_nul {d : Nat} (h : d < 36) : digit_char d ≠ 0#8 := by
  revert d
  decide

theorem nul_notMem_digit_chars (hbase : 1 < base) (h36 : base ≤ 36) (n : Nat) : 0#8 ∉ digit_chars base n := by
  intro hmem
  obtain ⟨d, hd, hz⟩ := List.mem_map.mp hmem
  have hlt := Nat.digits_lt_base hbase hd
  exact digit_char_ne_nul (by omega) hz

/-- The text of `n`. -/
def nat_chars (base n : Nat) : List Byte := if n = 0 then [ascii '0'] else (digit_chars base n).reverse

/-- The text of `z`: a sign in front of the negative numbers. -/
def int_chars (base : Nat) (z : Int) : List Byte :=
  if z < 0 then ascii '-' :: nat_chars base z.natAbs else nat_chars base z.natAbs

theorem nul_notMem_nat_chars (hbase : 1 < base) (h36 : base ≤ 36) (n : Nat) : 0#8 ∉ nat_chars base n := by
  unfold nat_chars
  split
  · decide
  · rw [List.mem_reverse]
    exact nul_notMem_digit_chars hbase h36 n

/-- Up to base 16 the digits are the characters of the numeral. -/
theorem numeral_digit_chars (hbase : 1 < base) (h16 : base ≤ 16) (hpos : 0 < n) :
    numeral base n = (digit_chars base n).reverse := by
  induction n using Nat.strong_induction_on with
  | _ n ih =>
    have hmod : n % base < base := Nat.mod_lt _ (by omega)
    rw [numeral_eq hbase, digit_chars_pos hbase hpos, List.reverse_cons, digit_char_upper (by omega)]
    split
    · rename_i hn
      rw [Nat.div_eq_of_lt hn, Nat.mod_eq_of_lt hn, digit_chars_zero]
      rfl
    · have hdiv : 0 < n / base := Nat.div_pos (by omega) (by omega)
      rw [ih _ (Nat.div_lt_self hpos hbase) hdiv]

theorem numeral_nat_chars (hbase : 1 < base) (h16 : base ≤ 16) (n : Nat) : numeral base n = nat_chars base n := by
  unfold nat_chars
  split
  · rename_i hzero
    rw [hzero, numeral_eq hbase, if_pos (by omega)]
    rfl
  · exact numeral_digit_chars hbase h16 (by omega)

theorem numeral_length_pos : 0 < (numeral base n).length := by
  rw [numeral, List.length_map]
  exact Nat.length_toDigits_pos

theorem numeral_length_le (hbase : 1 < base) (hn : n < 2 ^ 32) : (numeral base n).length ≤ 32 := by
  rw [numeral, List.length_map, Nat.length_toDigits_le_iff hbase (by decide)]
  exact lt_of_lt_of_le hn (Nat.pow_le_pow_left hbase 32)

/-- A property of all digits holds of all characters of a numeral. -/
theorem forall_toDigits {P : Char → Prop} (hbase : 1 < base) (h16 : base ≤ 16)
    (hP : ∀ d < 16, P d.digitChar) (n : Nat) : ∀ c ∈ Nat.toDigits base n, P c := by
  induction n using Nat.strong_induction_on with
  | _ n ih =>
    rw [Nat.toDigits_eq_if hbase]
    split
    · rename_i hn
      exact List.forall_mem_singleton.mpr (hP n (by omega))
    · rename_i hn
      refine List.forall_mem_append.mpr ⟨ih _ (Nat.div_lt_self (by omega) hbase), ?_⟩
      have hmod : n % base < base := Nat.mod_lt _ (by omega)
      exact List.forall_mem_singleton.mpr (hP _ (by omega))

theorem nul_notMem_numeral (hbase : 1 < base) (h16 : base ≤ 16) (n : Nat) : 0#8 ∉ numeral base n := by
  rw [numeral_nat_chars hbase h16]
  exact nul_notMem_nat_chars hbase (by omega) n

/-! ## Buffers -/

/-- The buffer starts with these bytes. -/
def Starts (str : Buffer) (l : List Byte) : Prop := ∀ i (h : i < l.length), str i = l[i]

theorem Starts.nil (str : Buffer) : Starts str [] := fun _ h => absurd h (Nat.not_lt_zero _)

theorem Starts.left (h : Starts str (l ++ r)) : Starts str l := fun i hi => by
  rw [h i (by rw [List.length_append]; omega), List.getElem_append_left hi]

theorem Starts.snoc (h : Starts str l) (c : Byte) :
    Starts (Function.update str l.length c) (l ++ [c]) := by
  intro i hi
  rw [List.length_append, List.length_singleton] at hi
  by_cases hl : i = l.length
  · subst hl
    rw [Function.update_self, List.getElem_concat_length rfl]
  · rw [Function.update_of_ne hl, List.getElem_append_left (by omega), h i (by omega)]

/-- Overwriting the byte after `l`. -/
theorem Starts.set (h : Starts str (l ++ c :: r)) (c' : Byte) :
    Starts (Function.update str l.length c') (l ++ c' :: r) := by
  intro i hi
  rw [List.length_append, List.length_cons] at hi
  by_cases hl : i = l.length
  · subst hl
    rw [Function.update_self, List.getElem_append_right (Nat.le_refl _)]
    simp
  · rw [Function.update_of_ne hl, h i (by simpa using hi)]
    simp only [List.getElem_append, List.getElem_cons]
    split
    · rfl
    · rw [dif_neg (by omega), dif_neg (by omega)]

theorem Starts.at (h : Starts str (l ++ c :: r)) : str l.length = c := by
  rw [h l.length (by simp), List.getElem_append_right (Nat.le_refl _)]
  simp

theorem string_eq (h : Starts str (l ++ [0#8])) (hnul : 0#8 ∉ l) (hlen : l.length < 65) :
    string str = l := by
  have hpre : (List.range 65).map str =
      l ++ 0#8 :: (List.range' (l.length + 1) (64 - l.length)).map str := by
    have hrange : List.range 65 =
        List.range' 0 l.length ++ l.length :: List.range' (l.length + 1) (64 - l.length) := by
      rw [List.range_eq_range', ← List.range'_succ, show 64 - l.length + 1 = 65 - l.length by omega,
        show List.range' l.length (65 - l.length) = List.range' (0 + l.length) (65 - l.length) by simp,
        List.range'_append_1]
      congr 1
      omega
    rw [hrange, List.map_append, List.map_cons, h.at]
    congr 1
    refine List.ext_getElem (by simp) fun i hi hi' => ?_
    simp only [List.getElem_map, List.getElem_range', Nat.one_mul, Nat.zero_add]
    exact h.left i hi'
  rw [string, hpre, List.takeWhile_append_of_pos, List.takeWhile_cons_of_neg, List.append_nil]
  · simp
  · intro b hb
    exact decide_eq_true fun hz => hnul (hz ▸ hb)

/-- `l` and its NUL were written to the start of `str`, and nothing behind them. -/
structure Delivers (str str' : Buffer) (l : List Byte) : Prop where
  starts : Starts str' (l ++ [0#8])
  no_nul : 0#8 ∉ l
  frame : ∀ i, l.length < i → str' i = str i

theorem Delivers.string (h : Delivers str str' l) (hlen : l.length < 65) : string str' = l :=
  string_eq h.starts h.no_nul hlen

/-! ## The conversion -/

/-- The loop over the digits appends them, the last digit first, and writes nowhere else. -/
theorem put_digits_digits (hbase : 1 < base) (h36 : base ≤ 36) (hfuel : (digit_chars base n).length < fuel)
    (hstr : Starts str l) :
    ∃ str', put_digits base fuel n l.length str = .ok (l.length + (digit_chars base n).length, str') ∧
      Starts str' (l ++ digit_chars base n) ∧
      ∀ i, l.length + (digit_chars base n).length ≤ i → str' i = str i := by
  induction fuel generalizing n l str with
  | zero => exact absurd hfuel (Nat.not_lt_zero _)
  | succ fuel ih =>
    rw [put_digits]
    obtain rfl | hpos := Nat.eq_zero_or_pos n
    · rw [if_pos (show ((0 : Nat) : Int) = 0 from rfl), digit_chars_zero, List.append_nil]
      exact ⟨str, rfl, hstr, fun _ _ => rfl⟩
    · have hmod : n % base < base := Nat.mod_lt _ (by omega)
      have htmod : (n : Int).tmod base = (n % base : Nat) := rfl
      have htdiv : (n : Int).tdiv base = (n / base : Nat) := rfl
      rw [digit_chars_pos hbase hpos, List.length_cons] at hfuel ⊢
      rw [if_neg (by omega), htmod, htdiv, digit_nat (by omega)]
      show ∃ str', put_digits base fuel _ _ _ = _ ∧ _
      have hstep := hstr.snoc (digit_char (n % base))
      obtain ⟨str', hput, hstr', hframe⟩ := ih (n := n / base) (by omega) hstep
      rw [List.length_append, List.length_singleton] at hput hframe
      refine ⟨str', ?_, by simpa using hstr', fun i hi => ?_⟩
      · rw [hput]
        congr 2
        omega
      · rw [hframe i (by omega), Function.update_of_ne (by omega)]

/-- The second loop reverses the bytes between its two ends. -/
theorem swap_ends_eq (mid : List Byte) (hstr : Starts str (l ++ (mid ++ r))) :
    Starts (swap_ends l.length (l.length + mid.length - 1) str) (l ++ (mid.reverse ++ r)) := by
  induction mid using List.bidirectionalRec generalizing l r str with
  | nil =>
    have hend : swap_ends l.length (l.length - 1) str = str := by
      cases l.length with
      | zero => rfl
      | succ k =>
        cases k with
        | zero => rfl
        | succ k => exact if_neg (by omega)
    rw [List.length_nil, Nat.add_zero, hend]
    exact hstr
  | singleton a =>
    have hend : swap_ends l.length l.length str = str := by
      cases l.length with
      | zero => rfl
      | succ k => exact if_neg (by omega)
    rw [List.length_singleton, Nat.add_sub_cancel, hend]
    exact hstr
  | cons_append a mid b ih =>
    have hlen : l.length + (a :: (mid ++ [b])).length - 1 = l.length + mid.length + 1 := by
      rw [List.length_cons, List.length_append, List.length_singleton]
      omega
    have hsplit : l ++ (a :: (mid ++ [b]) ++ r) = (l ++ a :: mid) ++ b :: r := by simp
    have hlast : str (l.length + mid.length + 1) = b := by
      rw [hsplit] at hstr
      have := hstr.at
      rwa [List.length_append, List.length_cons, ← Nat.add_assoc] at this
    have hfirst : str l.length = a := Starts.at (r := mid ++ [b] ++ r) hstr
    rw [hlen, swap_ends, if_pos (by omega), hfirst, hlast]
    have hswap : Starts (Function.update (Function.update str (l.length + mid.length + 1) a) l.length b)
        ((l ++ [b]) ++ (mid ++ a :: r)) := by
      rw [hsplit] at hstr
      have h1 := hstr.set a
      rw [List.length_append, List.length_cons, ← Nat.add_assoc, List.append_assoc, List.cons_append] at h1
      have h2 := h1.set b
      rwa [List.append_assoc, List.singleton_append]
    have hrec := ih hswap
    rw [List.length_append, List.length_singleton,
      show l.length + 1 + mid.length - 1 = l.length + mid.length by omega] at hrec
    simpa using hrec

/-- The second loop writes between its two ends only. -/
theorem swap_ends_frame (start index : Nat) (str : Buffer) (i : Nat) (h : index < i) :
    swap_ends start index str i = str i := by
  induction index generalizing start str with
  | zero => rfl
  | succ index ih =>
    rw [swap_ends]
    split
    · rw [ih _ _ (by omega), Function.update_of_ne (by omega), Function.update_of_ne (by omega)]
    · rfl

/-- After a prefix `l` the buffer holds the digits in their order and the NUL. -/
theorem convert_digits (hbase : 1 < base) (h36 : base ≤ 36) (hn : n < 2 ^ 32) (hstr : Starts str l) :
    ∃ str', convert n str base l.length = .ok str' ∧
      Starts str' (l ++ (digit_chars base n).reverse ++ [0#8]) ∧
      ∀ i, l.length + (digit_chars base n).length < i → str' i = str i := by
  have hlength := digit_chars_length hbase hn
  obtain ⟨digits, hput, hdigits, hframe⟩ := @put_digits_digits str l base n 33 hbase h36 (by omega) hstr
  have hnul := hdigits.snoc 0#8
  rw [List.append_assoc] at hnul
  have hrev := swap_ends_eq _ hnul
  rw [List.length_append, ← List.append_assoc] at hrev
  refine ⟨_, ?_, hrev, fun i hi => ?_⟩
  · rw [convert, hput]
    rfl
  · rw [swap_ends_frame _ _ _ _ (by omega), Function.update_of_ne (by omega), hframe i (by omega)]

theorem zero_delivers (str : Buffer) : Delivers str (zero str) [ascii '0'] where
  starts := ((Starts.nil str).snoc (ascii '0')).snoc 0#8
  no_nul := by decide
  frame i hi := by
    rw [List.length_singleton] at hi
    rw [zero, Function.update_of_ne (by omega), Function.update_of_ne (by omega)]

/-- The digits of `n` behind `l`, in a buffer that was `old` before `l` was written. -/
theorem convert_delivers {old : Buffer} (hbase : 1 < base) (h36 : base ≤ 36) (hn : n < 2 ^ 32)
    (hstr : Starts str l) (hnul : 0#8 ∉ l) (hold : ∀ i, l.length ≤ i → str i = old i) :
    ∃ str', convert n str base l.length = .ok str' ∧
      Delivers old str' (l ++ (digit_chars base n).reverse) := by
  obtain ⟨str', hconvert, hstarts, hframe⟩ := convert_digits hbase h36 hn hstr
  refine ⟨str', hconvert, hstarts, ?_, fun i hi => ?_⟩
  · rw [List.mem_append, List.mem_reverse, not_or]
    exact ⟨hnul, nul_notMem_digit_chars hbase h36 n⟩
  · rw [List.length_append, List.length_reverse] at hi
    rw [hframe i hi, hold i (by omega)]

/-- `ultoa` delivers the text of every number. -/
theorem ultoa_chars (hbase : 1 < base) (h36 : base ≤ 36) (v : BitVec 32) (str : Buffer) :
    ∃ str', ultoa v str base = .ok str' ∧ Delivers str str' (nat_chars base v.toNat) := by
  unfold ultoa nat_chars
  rw [if_neg (by omega)]
  split
  · rename_i hv
    rw [hv]
    exact ⟨zero str, rfl, zero_delivers str⟩
  · rename_i hv
    have hne : v.toNat ≠ 0 := fun hz => hv (BitVec.eq_of_toNat_eq hz)
    rw [if_neg hne]
    exact convert_delivers (l := []) hbase h36 v.isLt (Starts.nil str) List.not_mem_nil fun _ _ => rfl

/-- A negative `int` other than the least has a positive counterpart. -/
theorem toInt_negated {v : BitVec 32} (hv : v ≠ INT_MIN) (hneg : v.toInt < 0) :
    (~~~v + 1#32).toInt = (v.toInt.natAbs : Int) := by
  have hlow := BitVec.le_toInt v
  have hmin : v.toInt ≠ -2 ^ 31 := fun h0 => hv (BitVec.eq_of_toInt_eq h0)
  rw [← BitVec.neg_eq_not_add, BitVec.toInt_neg, Int.bmod_eq_of_le (by omega) (by omega)]
  omega

/-- `itoa` delivers the text of every number but the least. -/
theorem itoa_chars (hbase : 1 < base) (h36 : base ≤ 36) {v : BitVec 32} (hv : v ≠ INT_MIN) (str : Buffer) :
    ∃ str', itoa v str base = .ok str' ∧ Delivers str str' (int_chars base v.toInt) := by
  unfold itoa int_chars
  rw [if_neg (by omega)]
  split
  · rename_i hz
    rw [hz]
    exact ⟨zero str, rfl, zero_delivers str⟩
  rename_i hz
  have hne : v.toInt ≠ 0 := fun h0 => hz (BitVec.eq_of_toInt_eq h0)
  have hlow := BitVec.le_toInt v
  have hhigh := BitVec.toInt_lt (x := v)
  have habs : v.toInt.natAbs < 2 ^ 32 := by omega
  unfold nat_chars
  rw [if_neg (Int.natAbs_ne_zero.mpr hne)]
  split
  · -- the sign is written first
    have hsign : Starts (Function.update str 0 (ascii '-')) [ascii '-'] :=
      (Starts.nil str).snoc (ascii '-')
    rw [toInt_negated hv ‹_›]
    obtain ⟨str', hconvert, hdelivers⟩ := convert_delivers hbase h36 habs hsign (by decide) fun i hi =>
      Function.update_of_ne (Nat.ne_of_gt hi) _ str
    exact ⟨str', hconvert, hdelivers⟩
  · have hnonneg : v.toInt = (v.toInt.natAbs : Int) := by omega
    rw [hnonneg, Int.natAbs_natCast]
    exact convert_delivers (l := []) hbase h36 habs (Starts.nil str) List.not_mem_nil fun _ _ => rfl

theorem decimal_eq (n : Nat) : decimal n = numeral 10 n := by
  have hdigit : ∀ d < 10, ascii d.digitChar = ascii d.digitChar.toUpper := by decide
  induction n using Nat.strong_induction_on with
  | _ n ih =>
    rw [numeral_eq (by decide), decimal, Nat.toDigits_eq_if (by decide)]
    split
    · rename_i hn
      rw [List.map_singleton, hdigit n hn]
    · rename_i hn
      rw [List.map_append, List.map_singleton, hdigit _ (Nat.mod_lt _ (by decide)), ← ih _ (by omega), decimal]

theorem signed_chars (v : BitVec 32) : signed v = int_chars 10 v.toInt := by
  unfold signed int_chars
  rw [decimal_eq, numeral_nat_chars (by decide) (by decide)]

theorem ultoa_spec (hbase : 1 < base) (h16 : base ≤ 16) (v : BitVec 32) (str : Buffer) :
    ∃ str', ultoa v str base = .ok str' ∧ Starts str' (numeral base v.toNat ++ [0#8]) := by
  obtain ⟨str', hultoa, hdelivers⟩ := ultoa_chars hbase (by omega) v str
  rw [numeral_nat_chars hbase h16]
  exact ⟨str', hultoa, hdelivers.starts⟩

theorem itoa_spec {v : BitVec 32} (hv : v ≠ INT_MIN) (str : Buffer) :
    ∃ str', itoa v str 10 = .ok str' ∧ Starts str' (signed v ++ [0#8]) := by
  obtain ⟨str', hitoa, hdelivers⟩ := @itoa_chars 10 (by decide) (by decide) v hv str
  rw [signed_chars]
  exact ⟨str', hitoa, hdelivers.starts⟩

/-- The digits of the least `int` are looked up before the start of the table. -/
theorem itoa_INT_MIN (str : Buffer) : itoa INT_MIN str 10 = .error .wild := rfl

theorem string_numeral (hbase : 1 < base) (h16 : base ≤ 16) (hn : n < 2 ^ 32)
    (hstr : Starts str (numeral base n ++ [0#8])) : string str = numeral base n := by
  have hlen := numeral_length_le hbase hn
  exact string_eq hstr (nul_notMem_numeral hbase h16 n) (by omega)

theorem string_signed {v : BitVec 32} (hstr : Starts str (signed v ++ [0#8])) :
    string str = signed v := by
  have hlow := BitVec.le_toInt v
  have hhigh := BitVec.toInt_lt (x := v)
  have habs : v.toInt.natAbs < 2 ^ 32 := by omega
  have hlen := numeral_length_le (show 1 < 10 by decide) habs
  have hnul := nul_notMem_numeral (show 1 < 10 by decide) (by decide) v.toInt.natAbs
  unfold signed at hstr ⊢
  rw [decimal_eq] at hstr ⊢
  split at hstr
  · rename_i hneg
    rw [if_pos hneg]
    refine string_eq hstr ?_ (by rw [List.length_cons]; omega)
    rw [List.mem_cons, not_or]
    exact ⟨by decide, hnul⟩
  · rename_i hneg
    rw [if_neg hneg]
    exact string_eq hstr hnul (by omega)

/-- A character that the loop turns to lower case. -/
def Lowers (c : Char) : Prop :=
  tolower (ascii c.toUpper) = .ok (ascii c) ∧ ascii c ≠ 0#8 ∧ ascii c.toUpper ≠ 0#8

theorem string_lowered {done rest : List Char} (hlen : done.length + rest.length < 65)
    (hdone : ∀ c ∈ done, Lowers c) (hrest : ∀ c ∈ rest, Lowers c)
    (hstr : Starts str (done.map ascii ++ rest.map (fun c => ascii c.toUpper) ++ [0#8])) :
    string str = done.map ascii ++ rest.map fun c => ascii c.toUpper := by
  refine string_eq hstr (fun hmem => ?_) (by simpa using hlen)
  obtain hmem | hmem := List.mem_append.mp hmem
  · obtain ⟨c, hc, hz⟩ := List.mem_map.mp hmem
    exact (hdone c hc).2.1 hz
  · obtain ⟨c, hc, hz⟩ := List.mem_map.mp hmem
    exact (hrest c hc).2.2 hz

/-- One digit at a time the string turns to lower case. -/
theorem lower_string_eq (fuel : Nat) (done rest : List Char) (hfuel : rest.length < fuel)
    (hlen : done.length + rest.length < 65) (hdone : ∀ c ∈ done, Lowers c) (hrest : ∀ c ∈ rest, Lowers c)
    (hstr : Starts str (done.map ascii ++ rest.map (fun c => ascii c.toUpper) ++ [0#8])) :
    ∃ str', lower_string fuel done.length str = .ok str' ∧
      Starts str' ((done ++ rest).map ascii ++ [0#8]) := by
  induction rest generalizing done str fuel with
  | nil =>
    obtain ⟨fuel, rfl⟩ : ∃ k, fuel = k + 1 := ⟨fuel - 1, by simp at hfuel; omega⟩
    rw [lower_string, string_lowered hlen hdone hrest hstr, if_neg (by simp)]
    exact ⟨str, rfl, by simpa using hstr⟩
  | cons c rest ih =>
    obtain ⟨fuel, rfl⟩ : ∃ k, fuel = k + 1 := ⟨fuel - 1, by simp at hfuel; omega⟩
    obtain ⟨hc, hrest'⟩ := List.forall_mem_cons.mp hrest
    rw [List.length_cons] at hlen hfuel
    rw [lower_string, string_lowered (by simpa using hlen) hdone hrest hstr, if_pos (by simp)]
    rw [List.append_assoc, List.map_cons, List.cons_append] at hstr
    have hat := hstr.at
    have hset := hstr.set (ascii c)
    rw [List.length_map] at hat hset
    rw [hat, hc.1]
    have hdone' : ∀ d ∈ done ++ [c], Lowers d :=
      List.forall_mem_append.mpr ⟨hdone, List.forall_mem_singleton.mpr hc⟩
    obtain ⟨str', hlower, hstr'⟩ := ih fuel (done ++ [c]) (by omega) (by simp; omega) hdone' hrest'
      (by simpa using hset)
    rw [List.length_append, List.length_singleton] at hlower
    exact ⟨str', hlower, by simpa using hstr'⟩

theorem lower_numeral (hn : n < 2 ^ 32) (hstr : Starts str (numeral 16 n ++ [0#8])) :
    ∃ str', lower_string 65 0 str = .ok str' ∧ string str' = hexadecimal n := by
  have hlowers : ∀ c ∈ Nat.toDigits 16 n, Lowers c :=
    forall_toDigits (by decide) (by decide) (by unfold Lowers; decide) n
  have hlen : (Nat.toDigits 16 n).length ≤ 32 := by
    have := numeral_length_le (show 1 < 16 by decide) hn
    rwa [numeral, List.length_map] at this
  have hnone : ∀ c ∈ ([] : List Char), Lowers c := fun c hc => absurd hc List.not_mem_nil
  obtain ⟨str', hlower, hstr'⟩ := lower_string_eq 65 [] (Nat.toDigits 16 n) (by omega)
    (by rw [List.length_nil]; omega) hnone hlowers hstr
  refine ⟨str', hlower, string_eq hstr' (fun hmem => ?_) ?_⟩
  · obtain ⟨c, hc, hz⟩ := List.mem_map.mp hmem
    exact (hlowers c hc).2.1 hz
  · rw [hexadecimal, List.length_map]
    omega

end Condor.Libc
