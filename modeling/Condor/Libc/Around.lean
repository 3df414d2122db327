import Condor.Libc.Format

/-!
# Memory around the table of digits

`itoa` leaves its table for the least `int`, and goes on with what the memory in
front of the table holds. Here that memory is a parameter (`around`), so that
the loop over the format has a run behind such a directive too. Where the model
without it returns, both return the same (`passes_around_of_ok`).
-/

namespace Condor.Libc

/-! ## The number -/

/-- `"0123456789ABCDEFGHIJKLMNOPQRSTUVWXYZ"[i]` in a memory that holds `around` outside of the table. -/
def digit_around (around : Int → Byte) (i : Int) : Byte :=
  match digit i with
  | .ok c => c
  | .error _ => around i

def put_digits_around (around : Int → Byte) (base : Nat) :
    Nat → Int → Nat → Buffer → Except Stop (Nat × Buffer)
  | 0, _, _, _ => .error .pending
  | fuel + 1, value, index, str =>
    if value = 0 then .ok (index, str)
    else
      let c := digit_around around (value.tmod base)
      put_digits_around around base fuel (value.tdiv base) (index + 1) (Function.update str index c)

def convert_around (around : Int → Byte) (value : Int) (str : Buffer) (base start : Nat) :
    Except Stop Buffer := do
  let (index, str) ← put_digits_around around base 33 value start str
  .ok (swap_ends start (index - 1) (Function.update str index 0#8))

def itoa_around (around : Int → Byte) (value : BitVec 32) (str : Buffer) (base : Nat) : Except Stop Buffer :=
  if base < 2 ∨ 36 < base then .ok str
  else if value = 0#32 then .ok (zero str)
  else if value.toInt < 0 then
    convert_around around (~~~value + 1#32).toInt (Function.update str 0 (ascii '-')) base 1
  else convert_around around value.toInt str base 0

variable {around : Int → Byte} {base fuel index start : Nat} {value : Int} {str str' : Buffer} {v : BitVec 32}

theorem put_digits_around_of_ok {r : Nat × Buffer} (h : put_digits base fuel value index str = .ok r) :
    put_digits_around around base fuel value index str = .ok r := by
  induction fuel generalizing value index str with
  | zero => cases h
  | succ fuel ih =>
    rw [put_digits] at h
    rw [put_digits_around]
    split
    · rename_i hzero
      rwa [if_pos hzero] at h
    · rename_i hne
      rw [if_neg hne] at h
      obtain ⟨c, hc, h⟩ := Lib.bind_eq_ok.mp h
      have hdigit : digit_around around (value.tmod base) = c := by rw [digit_around, hc]
      rw [hdigit]
      exact ih h

theorem convert_around_of_ok (h : convert value str base start = .ok str') :
    convert_around around value str base start = .ok str' := by
  obtain ⟨⟨index, digits⟩, hput, h⟩ := Lib.bind_eq_ok.mp h
  rw [convert_around, put_digits_around_of_ok hput]
  exact h

theorem itoa_around_of_ok (h : itoa v str base = .ok str') : itoa_around around v str base = .ok str' := by
  unfold itoa at h
  unfold itoa_around
  split at h
  · rwa [if_pos ‹_›]
  rw [if_neg ‹_›]
  split at h
  · rwa [if_pos ‹_›]
  rw [if_neg ‹_›]
  split at h
  · rw [if_pos ‹_›]
    exact convert_around_of_ok h
  · rw [if_neg ‹_›]
    exact convert_around_of_ok h

/-- Each division takes a bit of the number at least. -/
theorem tdiv_lt (hbase : 1 < base) (hvalue : value.natAbs < 2 ^ (fuel + 1)) :
    (value.tdiv base).natAbs < 2 ^ fuel := by
  have hdiv : (value.tdiv base).natAbs = value.natAbs / base := Int.natAbs_tdiv value base
  have hle : value.natAbs / base ≤ value.natAbs / 2 := Nat.div_le_div_left hbase (by decide)
  omega

/-- Whatever the digits are, the loop over them ends. -/
theorem put_digits_around_total (hbase : 1 < base) (hvalue : value.natAbs < 2 ^ fuel) :
    ∃ r, put_digits_around around base (fuel + 1) value index str = .ok r := by
  induction fuel generalizing value index str with
  | zero =>
    have hzero : value = 0 := by omega
    exact ⟨(index, str), if_pos hzero⟩
  | succ fuel ih =>
    rw [put_digits_around]
    split
    · exact ⟨_, rfl⟩
    · exact ih (tdiv_lt hbase hvalue)

theorem itoa_around_total (around : Int → Byte) (v : BitVec 32) (str : Buffer) (base : Nat) :
    ∃ str', itoa_around around v str base = .ok str' := by
  have hconvert (u : BitVec 32) (str : Buffer) (start : Nat) (hbase : 1 < base) :
      ∃ str', convert_around around u.toInt str base start = .ok str' := by
    have hlow := BitVec.le_toInt u
    have hhigh := BitVec.toInt_lt (x := u)
    obtain ⟨⟨index, digits⟩, hput⟩ :=
      @put_digits_around_total around base 32 start u.toInt str hbase (by omega)
    refine ⟨swap_ends start (index - 1) (Function.update digits index 0#8), ?_⟩
    rw [convert_around, hput]
    rfl
  unfold itoa_around
  split
  · exact ⟨str, rfl⟩
  · have hbase : 1 < base := by omega
    split
    · exact ⟨zero str, rfl⟩
    · split
      · exact hconvert _ _ 1 hbase
      · exact hconvert v str 0 hbase

/-! ## The loop over the format -/

section Parser

variable {σ : Type} (print : List Byte → σ → σ) (stale : Stale) (around : Int → Byte)

def signed_around (s : Locals σ) : Except Stop (Locals σ) := do
  let (number, params) ← signed_number s
  let buffer ← itoa_around around number s.buffer 10
  .ok (print_buffer print { s with params } buffer)

/-- The pass is at a directive that it parses. -/
def Parses (s : Locals σ) : Prop :=
  s.at '%' ∧ s.format.tail.head? ≠ some (ascii '%') ∧ s.rejected_formater = false

instance (s : Locals σ) : Decidable (Parses s) := inferInstanceAs (Decidable (_ ∧ _))

/-- The locals at its specifier. -/
def specified (s : Locals σ) : Locals σ := flags { s with format := s.format.tail }

/-- One pass of the loop, in which a signed directive prints what it finds. -/
def pass_around (s : Locals σ) : Except Stop (Locals σ) :=
  if Parses s ∧ ((specified s).at 'd' ∨ (specified s).at 'i') then
    Locals.finish <$> signed_around print around (specified s)
  else pass print stale s

def passes_around : Nat → Locals σ → Except Stop (Locals σ)
  | 0, s => if s.format = [] then .ok s else .error .pending
  | fuel + 1, s => if s.format = [] then .ok s else pass_around print stale around s >>= passes_around fuel

end Parser

variable {σ : Type} {print : List Byte → σ → σ} {stale : Stale} {s t : Locals σ}

theorem signed_around_of_ok (h : signed_directive print s = .ok t) : signed_around print around s = .ok t := by
  obtain ⟨⟨number, params⟩, hnumber, h⟩ := Lib.bind_eq_ok.mp h
  obtain ⟨buffer, hitoa, h⟩ := Lib.bind_eq_ok.mp h
  rw [signed_around, hnumber]
  show itoa_around around number s.buffer 10 >>= _ = _
  rw [itoa_around_of_ok hitoa]
  exact h

/-- A pass at a directive runs its specifier. -/
theorem pass_parses (h : Parses s) :
    pass print stale s = specifier print stale s.format.tail (specified s) := by
  obtain ⟨hat, hhead, hrejected⟩ := h
  obtain ⟨format, hformat⟩ := List.head?_eq_some_iff.mp hat
  rw [hformat, List.tail_cons] at hhead
  unfold pass specified
  rw [hformat, List.tail_cons]
  dsimp only
  rw [if_neg (not_not.mpr rfl), if_neg hhead, hrejected, if_neg Bool.false_ne_true]

theorem specifier_signed {format_start : List Byte} (h : s.at 'd' ∨ s.at 'i') :
    specifier print stale format_start s = Locals.finish <$> signed_directive print s := by
  obtain h | h := h <;> obtain ⟨rest, hformat⟩ := List.head?_eq_some_iff.mp h
  · exact specifier_d (.inl hformat)
  · exact specifier_d (.inr hformat)

theorem pass_around_of_ok (h : pass print stale s = .ok t) : pass_around print stale around s = .ok t := by
  unfold pass_around
  split
  · rename_i hsigned
    rw [pass_parses hsigned.1, specifier_signed hsigned.2] at h
    cases hdirective : signed_directive print (specified s) with
    | error e => rw [hdirective] at h; cases h
    | ok u => rwa [signed_around_of_ok hdirective, ← hdirective]
  · exact h

/-- With the memory around the table a run does what it did without, where that returned. -/
theorem passes_around_of_ok (h : passes print stale fuel s = .ok t) :
    passes_around print stale around fuel s = .ok t := by
  induction fuel generalizing s with
  | zero => exact h
  | succ fuel ih =>
    unfold passes at h
    unfold passes_around
    split at h
    · rwa [if_pos ‹_›]
    · rw [if_neg ‹_›]
      obtain ⟨u, hpass, h⟩ := Lib.bind_eq_ok.mp h
      rw [pass_around_of_ok hpass]
      exact ih h

end Condor.Libc
