import Condor.Libc.Around

/-!
# Numerals in every base

`Denotes` is what a reader expects of a numeral: digits of the base, the value, and no
zero in front but for zero itself. In all bases from 2 to 36 `ultoa` delivers such a
numeral of every `unsigned long` in at most 33 bytes, so that two numbers with one
numeral are the same (`ultoa_bases`). `itoa` does so for every `int` but the least, in
at most 34 bytes. The least one stays negative when it is negated, and its remainders
are negative indices into the table of digits (`itoa_ok_iff`).
-/

namespace Condor.Libc

/-- The number that a reader makes of a numeral. -/
def numeral_value (base : Nat) (l : List Byte) : Nat := l.foldl (fun n c => n * base + DIGITS.idxOf c) 0

/-- `l` is the numeral of `n`, without superfluous zeros in front. -/
structure Denotes (base : Nat) (l : List Byte) (n : Nat) : Prop where
  digits : ∀ c ∈ l, ∃ d < base, DIGITS[d]? = some c
  value : numeral_value base l = n
  nonempty : l ≠ []
  leading : l.head? = some (ascii '0') → l = [ascii '0']

/-- A sign in front of the negative numbers, and of no others. -/
def DenotesInt (base : Nat) (l : List Byte) (z : Int) : Prop :=
  if z < 0 then ∃ digits, l = ascii '-' :: digits ∧ Denotes base digits z.natAbs else Denotes base l z.natAbs

/-- The indices into the table of digits, with `put_digits`. -/
def digit_indexes (base : Nat) : Nat → Int → List Int
  | 0, _ => []
  | fuel + 1, value => if value = 0 then [] else value.tmod base :: digit_indexes base fuel (value.tdiv base)

def itoa_indexes (value : BitVec 32) (base : Nat) : List Int :=
  if base < 2 ∨ 36 < base then []
  else if value = 0#32 then []
  else if value.toInt < 0 then digit_indexes base 33 (~~~value + 1#32).toInt
  else digit_indexes base 33 value.toInt

/-- `itoa` stays inside of its table, whatever is around it, and delivers the numeral in 34 bytes at most. -/
structure ItoaOk (value : BitVec 32) (base : Nat) : Prop where
  table : ∀ i ∈ itoa_indexes value base, 0 ≤ i ∧ i < 36
  text : ∀ around str, ∃ str' l, itoa_around around value str base = .ok str' ∧ Delivers str str' l ∧
    l.length + 1 ≤ 34 ∧ DenotesInt base l value.toInt

variable {base n fuel : Nat} {str str' : Buffer} {l : List Byte} {value : Int}

/-! ## The digits of a number -/

theorem idxOf_digit_char {d : Nat} (h : d < 36) : DIGITS.idxOf (digit_char d) = d := by
  revert d
  decide

theorem digit_char_eq_zero {d : Nat} (h : d < 36) : digit_char d = ascii '0' ↔ d = 0 := by
  revert d
  decide

theorem foldr_digit_char (digits : List Nat) (h : ∀ d ∈ digits, d < 36) :
    (digits.map digit_char).foldr (fun c n => n * base + DIGITS.idxOf c) 0 = Nat.ofDigits base digits := by
  induction digits with
  | nil => rfl
  | cons d digits ih =>
    obtain ⟨hd, hdigits⟩ := List.forall_mem_cons.mp h
    rw [List.map_cons, List.foldr_cons, ih hdigits, idxOf_digit_char hd, Nat.ofDigits_cons]
    ring

theorem numeral_value_digits (hbase : 1 < base) (h36 : base ≤ 36) (n : Nat) :
    numeral_value base (digit_chars base n).reverse = n := by
  have hdigits : ∀ d ∈ Nat.digits base n, d < 36 := fun d hd =>
    lt_of_lt_of_le (Nat.digits_lt_base hbase hd) h36
  rw [numeral_value, List.foldl_reverse, digit_chars, foldr_digit_char _ hdigits, Nat.ofDigits_digits]

/-- The digits of a positive number in their order. -/
theorem denotes_digit_chars (hbase : 1 < base) (h36 : base ≤ 36) (hn : 0 < n) :
    Denotes base (digit_chars base n).reverse n := by
  have hne : Nat.digits base n ≠ [] := Nat.digits_ne_nil_iff_ne_zero.mpr (by omega)
  refine ⟨fun c hc => ?_, numeral_value_digits hbase h36 n, by simpa [digit_chars] using hne, fun hhead => ?_⟩
  · obtain ⟨d, hd, rfl⟩ := List.mem_map.mp (List.mem_reverse.mp hc)
    have hlt := Nat.digits_lt_base hbase hd
    exact ⟨d, hlt, digit_char_get (by omega)⟩
  · -- the digit in front is the last of `Nat.digits`, which is not zero
    have hlast := Nat.getLast_digit_ne_zero base (show n ≠ 0 by omega)
    have hlt := Nat.digits_lt_base hbase (List.getLast_mem hne)
    rw [List.head?_reverse, digit_chars, List.getLast?_map, List.getLast?_eq_some_getLast hne] at hhead
    have hzero := (digit_char_eq_zero (by omega)).mp (Option.some.inj hhead)
    exact absurd hzero hlast

theorem denotes_zero (hbase : 1 < base) : Denotes base [ascii '0'] 0 where
  digits c hc := by
    rw [List.mem_singleton.mp hc]
    exact ⟨0, by omega, rfl⟩
  value := by
    show 0 * base + DIGITS.idxOf (ascii '0') = 0
    rw [Nat.zero_mul, Nat.zero_add]
    rfl
  nonempty := List.cons_ne_nil _ _
  leading _ := rfl

theorem denotes_nat_chars (hbase : 1 < base) (h36 : base ≤ 36) (n : Nat) : Denotes base (nat_chars base n) n := by
  unfold nat_chars
  split
  · rename_i hzero
    exact hzero ▸ denotes_zero hbase
  · exact denotes_digit_chars hbase h36 (by omega)

theorem nat_chars_length (hbase : 1 < base) (hn : n < 2 ^ 32) : (nat_chars base n).length ≤ 32 := by
  unfold nat_chars
  split
  · decide
  · rw [List.length_reverse]
    exact digit_chars_length hbase hn

/-! ## `ultoa` -/

theorem ultoa_delivers (hbase : 1 < base) (h36 : base ≤ 36) (v : BitVec 32) (str : Buffer) :
    ∃ str' l, ultoa v str base = .ok str' ∧ Delivers str str' l ∧ l.length + 1 ≤ 33 ∧
      Denotes base l v.toNat := by
  obtain ⟨str', hultoa, hdelivers⟩ := ultoa_chars hbase h36 v str
  have hlength := nat_chars_length hbase v.isLt
  exact ⟨str', _, hultoa, hdelivers, by omega, denotes_nat_chars hbase h36 v.toNat⟩

/-- `ultoa` terminates, and delivers the numeral of the number in at most 33 bytes. It is injective. -/
theorem ultoa_bases (hbase : 2 ≤ base) (h36 : base ≤ 36) :
    (∀ v str, ∃ str' l, ultoa v str base = .ok str' ∧ Delivers str str' l ∧ l.length + 1 ≤ 33 ∧
      Denotes base l v.toNat) ∧
    ∀ v w str₁ str₂ out₁ out₂, ultoa v str₁ base = .ok out₁ → ultoa w str₂ base = .ok out₂ →
      string out₁ = string out₂ → v = w := by
  refine ⟨ultoa_delivers hbase h36, fun v w str₁ str₂ out₁ out₂ hv hw heq => ?_⟩
  obtain ⟨out₁', l₁, hv', hdelivers₁, hlen₁, hdenotes₁⟩ := ultoa_delivers hbase h36 v str₁
  obtain ⟨out₂', l₂, hw', hdelivers₂, hlen₂, hdenotes₂⟩ := ultoa_delivers hbase h36 w str₂
  obtain rfl : out₁ = out₁' := by rw [hv] at hv'; exact Except.ok.inj hv'
  obtain rfl : out₂ = out₂' := by rw [hw] at hw'; exact Except.ok.inj hw'
  have hl : l₁ = l₂ := by rw [← hdelivers₁.string (by omega), heq, hdelivers₂.string (by omega)]
  refine BitVec.eq_of_toNat_eq ?_
  rw [← hdenotes₁.value, hl, hdenotes₂.value]

/-- The greatest number in the greatest base. -/
theorem ultoa_bases_greatest : ∃ str' l, ultoa 0xFFFFFFFF#32 (fun _ => 0#8) 36 = .ok str' ∧
    Delivers (fun _ => 0#8) str' l ∧ l.length + 1 ≤ 33 ∧ Denotes 36 l 4294967295 :=
  (ultoa_bases (by decide) (by decide)).1 0xFFFFFFFF#32 fun _ => 0#8

/-! ## `itoa` -/

theorem itoa_delivers (hbase : 1 < base) (h36 : base ≤ 36) {v : BitVec 32} (hv : v ≠ INT_MIN) (str : Buffer) :
    ∃ str' l, itoa v str base = .ok str' ∧ Delivers str str' l ∧ l.length + 1 ≤ 34 ∧
      DenotesInt base l v.toInt := by
  obtain ⟨str', hitoa, hdelivers⟩ := itoa_chars hbase h36 hv str
  have hlow := BitVec.le_toInt v
  have hhigh := BitVec.toInt_lt (x := v)
  have habs : v.toInt.natAbs < 2 ^ 32 := by omega
  have hlength := nat_chars_length hbase habs
  have hdenotes := denotes_nat_chars hbase h36 v.toInt.natAbs
  refine ⟨str', _, hitoa, hdelivers, ?_, ?_⟩
  all_goals unfold int_chars
  · split
    · rw [List.length_cons]
      omega
    · omega
  · unfold DenotesInt
    split
    · exact ⟨_, rfl, hdenotes⟩
    · exact hdenotes

/-- The loop writes what it finds at these indices, one after the other. -/
theorem put_digits_around_indexes {around : Int → Byte} {last : Nat} (hstr : Starts str l)
    (h : put_digits_around around base fuel value l.length str = .ok (last, str')) :
    last = l.length + (digit_indexes base fuel value).length ∧
      Starts str' (l ++ (digit_indexes base fuel value).map (digit_around around)) := by
  induction fuel generalizing value l str with
  | zero => cases h
  | succ fuel ih =>
    rw [put_digits_around] at h
    rw [digit_indexes]
    split at h
    · rename_i hzero
      cases h
      rw [if_pos hzero, List.map_nil, List.append_nil]
      exact ⟨rfl, hstr⟩
    · rename_i hne
      have hstep := hstr.snoc (digit_around around (value.tmod base))
      obtain ⟨hlast, hstarts⟩ := ih hstep (by rwa [List.length_append, List.length_singleton])
      rw [if_neg hne, List.map_cons, List.length_cons]
      rw [List.length_append, List.length_singleton] at hlast
      exact ⟨by omega, by simpa using hstarts⟩

theorem digit_indexes_nat (hbase : 0 < base) (h36 : base ≤ 36) (fuel n : Nat) :
    ∀ i ∈ digit_indexes base fuel n, 0 ≤ i ∧ i < 36 := by
  induction fuel generalizing n with
  | zero => exact fun i hi => absurd hi List.not_mem_nil
  | succ fuel ih =>
    rw [digit_indexes]
    split
    · exact fun i hi => absurd hi List.not_mem_nil
    · have hmod : n % base < base := Nat.mod_lt _ hbase
      have htmod : (n : Int).tmod base = (n % base : Nat) := rfl
      refine List.forall_mem_cons.mpr ⟨?_, ih (n / base)⟩
      rw [htmod]
      omega

/-- The last digit of a negative number that the loop looks up is negative. -/
theorem digit_indexes_negative (hbase : 1 < base) (hneg : value < 0) (hvalue : value.natAbs < 2 ^ fuel) :
    ∃ i ∈ digit_indexes base fuel value, i < 0 := by
  induction fuel generalizing value with
  | zero => omega
  | succ fuel ih =>
    rw [digit_indexes, if_neg (by omega)]
    by_cases hdiv : value.tdiv base = 0
    · have hmod : value.tmod base = value := by
        have := Int.tmod_add_mul_tdiv value base
        rwa [hdiv, Int.mul_zero, Int.add_zero] at this
      exact ⟨_, List.mem_cons_self, by rwa [hmod]⟩
    · have hle : 0 ≤ (-value).tdiv base := Int.tdiv_nonneg (by omega) (by omega)
      rw [Int.neg_tdiv] at hle
      obtain ⟨i, hi, hlt⟩ := ih (by omega) (tdiv_lt hbase hvalue)
      exact ⟨i, List.mem_cons_of_mem _ hi, hlt⟩

theorem itoa_indexes_ok (hbase : 1 < base) (h36 : base ≤ 36) {v : BitVec 32} (hv : v ≠ INT_MIN) :
    ∀ i ∈ itoa_indexes v base, 0 ≤ i ∧ i < 36 := by
  unfold itoa_indexes
  rw [if_neg (by omega)]
  split
  · exact fun i hi => absurd hi List.not_mem_nil
  split
  · rw [toInt_negated hv ‹_›]
    exact digit_indexes_nat (by omega) h36 33 _
  · have hnonneg : v.toInt = (v.toInt.natAbs : Int) := by omega
    rw [hnonneg]
    exact digit_indexes_nat (by omega) h36 33 _

/-- `itoa` does what it should for every `int` but the least. -/
theorem itoa_ok_iff (v : BitVec 32) (hbase : 2 ≤ base) (h36 : base ≤ 36) : ItoaOk v base ↔ v ≠ INT_MIN := by
  refine ⟨fun hok hv => ?_, fun hv => ⟨itoa_indexes_ok hbase h36 hv, fun around str => ?_⟩⟩
  · have hindexes : itoa_indexes INT_MIN base = digit_indexes base 33 (-2 ^ 31) := by
      unfold itoa_indexes
      rw [if_neg (by omega)]
      rfl
    have htable := hok.table
    rw [hv, hindexes] at htable
    obtain ⟨i, hi, hneg⟩ :=
      @digit_indexes_negative base 33 (-2 ^ 31) hbase (by decide) (by decide)
    exact absurd (htable i hi).1 (by omega)
  · obtain ⟨str', l, hitoa, htext⟩ := itoa_delivers hbase h36 hv str
    exact ⟨str', l, itoa_around_of_ok hitoa, htext⟩

/-- The number next to it. -/
theorem itoa_ok_iff_next : ItoaOk 0x80000001#32 2 := (itoa_ok_iff 0x80000001#32 (by decide) (by decide)).mpr (by decide)

/-- The last decimal digit of the least `int` is looked up 8 bytes in front of the table. -/
theorem itoa_INT_MIN_index : ¬ ItoaOk INT_MIN 10 := fun h => absurd (h.table (-8) (by decide)).1 (by decide)

end Condor.Libc
