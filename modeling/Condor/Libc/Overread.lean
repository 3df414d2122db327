import Condor.Libc.Around
import Condor.Libc.Vprintf
import Mathlib.Algebra.Group.Nat.Even
import Mathlib.Logic.Relation

/-!
# Reads of the format

`pass_reads` are the places of the format that a pass looks at, up to the NUL.
Only `printc` can leave the format: it does not look at the first character that
it prints. When a lone `%` ends the format, `printc` prints the NUL and goes on
behind it. A format ends that way exactly if the number of `%` at its end is odd,
for a pass takes two of them or one with what it is in front of
(`vprintf_reads_iff`).
-/

namespace Condor.Libc

/-! ## Reads -/

/-- From the label `printc` on, at index `i`: the character there and those up to the next `%` or NUL. -/
def printc_reads (i : Nat) (format : List Byte) : List Nat :=
  (List.range (2 + (format.tail.takeWhile (· ≠ ascii '%')).length)).map (i + ·)

/-- The conversions of the code. -/
def specifiers : List Byte := ['c', 's', 'd', 'i', 'u', 'x', 'X'].map ascii

section Reads

variable {σ : Type}

/-- The pass is at a conversion. -/
def AtSpecifier (s : Locals σ) : Prop := ∃ c ∈ specifiers, s.format.head? = some c

instance (s : Locals σ) : Decidable (AtSpecifier s) := inferInstanceAs (Decidable (∃ c ∈ _, _))

/-- The indices at which a pass reads the format, counted from its start. -/
def pass_reads (s : Locals σ) : List Nat :=
  match s.format with
  | [] => [0]
  | c :: format =>
    if c ≠ ascii '%' then 0 :: printc_reads 0 (c :: format)
    else if Parses s then
      let flags := format.length - (specified s).format.length
      List.range (2 + flags) ++ if AtSpecifier (specified s) then [] else printc_reads 1 format
    else [0, 1] ++ printc_reads 1 format

/-- The NUL is the last byte that the pass reads. -/
def Inside (s : Locals σ) : Prop := ∀ i ∈ pass_reads s, i ≤ s.format.length

/-- The loop goes on from `s` to `t`. -/
def Next (print : List Byte → σ → σ) (stale : Stale) (around : Int → Byte) (s t : Locals σ) : Prop :=
  s.format ≠ [] ∧ pass_around print stale around s = .ok t

end Reads

/-! ## Arguments -/

inductive ArgType where
  | int
  | int64
  | str
  deriving DecidableEq, Repr

def Arg.type : Arg → ArgType
  | .int _ => .int
  | .int64 _ => .int64
  | .str _ => .str

/-- What a conversion behind `length` times `l` takes. The hexadecimal ones only take an argument behind one
or two. -/
def asked (length : Nat) (c : Byte) : List ArgType :=
  if c = ascii 's' then [.str]
  else if c = ascii 'd' ∨ c = ascii 'i' then (if length = 2 then [.int64] else [.int])
  else if c = ascii 'x' ∨ c = ascii 'X' then (if length = 1 ∨ length = 2 then [.int] else [])
  else [.int]

/-- What the directives of a format take, one pass for each `fuel`. The first that the code does not know is
the last that it parses. -/
def asks : Nat → List Byte → List ArgType
  | 0, _ => []
  | _ + 1, [] => []
  | fuel + 1, c :: format =>
    if c ≠ ascii '%' then asks fuel (format.dropWhile (· ≠ ascii '%'))
    else if format.head? = some (ascii '%') then asks fuel (format.tail.dropWhile (· ≠ ascii '%'))
    else
      let flagged := if format.head? = some (ascii '#') then format.tail else format
      match flagged.dropWhile (· = ascii 'l') with
      | [] => []
      | c :: rest =>
        if c ∈ specifiers then asked (flagged.takeWhile (· = ascii 'l')).length c ++ asks fuel rest else []

/-- Enough arguments of the types that the code takes for the directives. For a bare `%x` it takes none, so a
`%s` that comes later must find its string where the integer would be. -/
def Feeds (format : List Byte) (params : List Arg) : Prop :=
  asks format.length format <+: params.map Arg.type

instance (format : List Byte) (params : List Arg) : Decidable (Feeds format params) :=
  inferInstanceAs (Decidable (_ <+: _))

/-! ## The end of a format -/

/-- The number of `%` at the end. -/
def trailing (format : List Byte) : Nat := (format.reverse.takeWhile (· = ascii '%')).length

variable {pre format rest : List Byte} {c : Byte}

/-- Behind another character only the rest counts. -/
theorem trailing_append (h : pre.getLast? ≠ some (ascii '%')) (l : List Byte) :
    trailing (pre ++ l) = trailing l := by
  have hpre : pre.reverse.takeWhile (· = ascii '%') = [] := by
    rw [← List.head?_reverse] at h
    cases hrev : pre.reverse with
    | nil => rfl
    | cons c rest => exact List.takeWhile_cons_of_neg (by simpa [hrev] using h)
  unfold trailing
  rw [List.reverse_append, List.takeWhile_append, hpre, List.append_nil]
  split
  · rename_i hall
    exact hall.symm
  · rfl

/-- A pair of `%` does not change the parity. -/
theorem even_trailing_pair (l : List Byte) :
    Even (trailing (ascii '%' :: ascii '%' :: l)) ↔ Even (trailing l) := by
  have hpair : [ascii '%', ascii '%'].takeWhile (· = ascii '%') = [ascii '%', ascii '%'] := rfl
  unfold trailing
  rw [show ascii '%' :: ascii '%' :: l = [ascii '%', ascii '%'] ++ l from rfl, List.reverse_append,
    show [ascii '%', ascii '%'].reverse = [ascii '%', ascii '%'] from rfl, List.takeWhile_append, hpair]
  split
  · rename_i hall
    rw [List.length_append, hall]
    exact Nat.even_add_one.trans (not_congr Nat.even_add_one |>.trans not_not)
  · rfl

theorem trailing_dropWhile (l : List Byte) : trailing (l.dropWhile (· ≠ ascii '%')) = trailing l := by
  have hlast : (l.takeWhile (· ≠ ascii '%')).getLast? ≠ some (ascii '%') := fun h => by
    have hne := List.all_eq_true.mp (@List.all_takeWhile _ (· ≠ ascii '%') l) _ (List.mem_of_getLast? h)
    exact absurd rfl (of_decide_eq_true hne)
  have hsplit : l.takeWhile (· ≠ ascii '%') ++ l.dropWhile (· ≠ ascii '%') = l := List.takeWhile_append_dropWhile
  rw [← trailing_append hlast, hsplit]

/-! ## Directives -/

section Directives

variable {σ : Type} {print : List Byte → σ → σ} {stale : Stale} {around : Int → Byte} {s t : Locals σ}
  {params : List Arg}

/-- The first argument has the first type that is asked for. -/
theorem arg_of_types {type : ArgType} {types : List ArgType} (h : type :: types <+: params.map Arg.type) :
    ∃ arg rest, params = arg :: rest ∧ arg.type = type ∧ types <+: rest.map Arg.type := by
  cases params with
  | nil => exact absurd h (by simp)
  | cons arg rest =>
    rw [List.map_cons, List.cons_prefix_cons] at h
    exact ⟨arg, rest, rfl, h.1.symm, h.2⟩

theorem int_of_types {types : List ArgType} (h : .int :: types <+: params.map Arg.type) :
    ∃ v rest, params = .int v :: rest ∧ types <+: rest.map Arg.type := by
  obtain ⟨arg, rest, rfl, htype, hrest⟩ := arg_of_types h
  cases arg with
  | int v => exact ⟨v, rest, rfl, hrest⟩
  | int64 v => cases htype
  | str str => cases htype

theorem str_of_types {types : List ArgType} (h : .str :: types <+: params.map Arg.type) :
    ∃ str rest, params = .str str :: rest ∧ types <+: rest.map Arg.type := by
  obtain ⟨arg, rest, rfl, htype, hrest⟩ := arg_of_types h
  cases arg with
  | int v => cases htype
  | int64 v => cases htype
  | str str => exact ⟨str, rest, rfl, hrest⟩

theorem int64_of_types {types : List ArgType} (h : .int64 :: types <+: params.map Arg.type) :
    ∃ v rest, params = .int64 v :: rest ∧ types <+: rest.map Arg.type := by
  obtain ⟨arg, rest, rfl, htype, hrest⟩ := arg_of_types h
  cases arg with
  | int v => cases htype
  | int64 v => exact ⟨v, rest, rfl, hrest⟩
  | str str => cases htype

/-- The directive at `s` is printed, and the arguments of `types` are left. -/
def Printed (s : Locals σ) (types : List ArgType) (r : Except Stop (Locals σ)) : Prop :=
  ∃ out n params buffer,
    r = .ok (after_directive s out n s.format.tail params buffer) ∧ types <+: params.map Arg.type

variable {types : List ArgType}

theorem signed_printed
    (h : (if s.length = 2 then [.int64] else [.int]) ++ types <+: s.params.map Arg.type) :
    Printed s types (Locals.finish <$> signed_around print around s) := by
  have hnumber : ∃ number params, signed_number s = .ok (number, params) ∧ types <+: params.map Arg.type := by
    unfold signed_number
    split at h
    · rename_i h2
      obtain ⟨v, rest, hparams, hrest⟩ := int64_of_types h
      refine ⟨v.setWidth 32, rest, ?_, hrest⟩
      rw [if_neg (by omega), if_pos h2, hparams]
      rfl
    · rename_i h2
      obtain ⟨v, rest, hparams, hrest⟩ := int_of_types h
      refine ⟨v, rest, ?_, hrest⟩
      rw [if_neg h2, ite_self, hparams]
      rfl
  obtain ⟨number, params, hnumber, hrest⟩ := hnumber
  obtain ⟨buffer, hitoa⟩ := itoa_around_total around number s.buffer 10
  refine ⟨print (string buffer) s.out, (string buffer).length, params, buffer, ?_, hrest⟩
  rw [signed_around, hnumber]
  show Locals.finish <$> (itoa_around around number s.buffer 10 >>= _) = _
  rw [hitoa]
  rfl

theorem hex_printed (lower : Bool)
    (h : (if s.length = 1 ∨ s.length = 2 then [.int] else []) ++ types <+: s.params.map Arg.type) :
    Printed s types (Locals.finish <$> hex_directive print stale lower s) := by
  have hnumber : ∃ number params, hex_number stale s = .ok (number, params) ∧ types <+: params.map Arg.type := by
    unfold hex_number
    split at h
    · rename_i hlength
      obtain ⟨v, rest, hparams, hrest⟩ := int_of_types h
      refine ⟨v, rest, ?_, hrest⟩
      rw [if_pos hlength, hparams]
      rfl
    · rename_i hlength
      exact ⟨_, s.params, if_neg hlength, h⟩
  obtain ⟨number, params, hnumber, hrest⟩ := hnumber
  obtain ⟨buffer, hhex⟩ := hex_spec lower hnumber
  exact ⟨_, _, params, buffer, hhex, hrest⟩

/-- A conversion that finds its argument is printed. -/
theorem specifier_printed {format_start : List Byte} {c : Byte} (hc : c ∈ specifiers)
    (hat : s.format.head? = some c) (h : asked s.length c ++ types <+: s.params.map Arg.type) :
    Printed s types (if s.at 'd' ∨ s.at 'i' then Locals.finish <$> signed_around print around s
      else specifier print stale format_start s) := by
  obtain ⟨rest, hformat⟩ := List.head?_eq_some_iff.mp hat
  simp only [specifiers, List.map_cons, List.map_nil, List.mem_cons, List.not_mem_nil, or_false] at hc
  rcases hc with rfl | rfl | rfl | rfl | rfl | rfl | rfl
  · obtain ⟨v, params, hparams, hrest⟩ := int_of_types (show ArgType.int :: types <+: _ from h)
    rw [if_neg (by simp [at_iff hformat, ascii]), specifier_c hformat]
    exact ⟨_, 0, params, s.buffer, char_spec hparams, hrest⟩
  · obtain ⟨str, params, hparams, hrest⟩ := str_of_types (show ArgType.str :: types <+: _ from h)
    rw [if_neg (by simp [at_iff hformat, ascii]), specifier_s hformat]
    exact ⟨_, 0, params, s.buffer, string_spec hparams, hrest⟩
  · rw [if_pos (.inl hat)]
    exact signed_printed h
  · rw [if_pos (.inr hat)]
    exact signed_printed h
  · obtain ⟨v, params, hparams, hrest⟩ := int_of_types (show ArgType.int :: types <+: _ from h)
    rw [if_neg (by simp [at_iff hformat, ascii]), specifier_u hformat]
    obtain ⟨buffer, hunsigned⟩ := unsigned_spec hparams
    exact ⟨_, _, params, buffer, hunsigned, hrest⟩
  · rw [if_neg (by simp [at_iff hformat, ascii]), specifier_x hformat]
    exact hex_printed true h
  · rw [if_neg (by simp [at_iff hformat, ascii]), specifier_X hformat]
    exact hex_printed false h

/-- Any other character is none of the conversions. -/
theorem not_at (h : ¬ AtSpecifier s) :
    ¬ s.at 'c' ∧ ¬ s.at 's' ∧ ¬ (s.at 'd' ∨ s.at 'i') ∧ ¬ s.at 'u' ∧ ¬ s.at 'x' ∧ ¬ s.at 'X' := by
  have hat (c : Char) (hc : ascii c ∈ specifiers) : ¬ s.at c := fun hat => h ⟨ascii c, hc, hat⟩
  simp only [specifiers, List.map_cons, List.map_nil, List.mem_cons] at hat
  refine ⟨hat 'c' ?_, hat 's' ?_, not_or.mpr ⟨hat 'd' ?_, hat 'i' ?_⟩, hat 'u' ?_, hat 'x' ?_, hat 'X' ?_⟩ <;> simp

/-- It is printed from behind the `%` on. -/
theorem specifier_unknown {format_start : List Byte} (h : ¬ AtSpecifier s) :
    specifier print stale format_start s = printc print { s with
      length := 0, amount := 0#32, pound := false, rejected_formater := true, format := format_start } := by
  obtain ⟨hc, hs, hd, hu, hx, hX⟩ := not_at h
  unfold specifier
  rw [if_neg hc, if_neg hs, if_neg hd, if_neg hu, if_neg hx, if_neg hX]

/-! ## Passes -/

/-- At the head of the loop: no `l` is pending, and the arguments suffice for what is left to parse. -/
structure Fed (s : Locals σ) : Prop where
  length : s.length = 0
  args : s.rejected_formater = true ∨ ∃ fuel, s.format.length ≤ fuel ∧ asks fuel s.format <+: s.params.map Arg.type

/-- A lone `%` at the end of the format. -/
def Lone (s : Locals σ) : Prop := s.format = [ascii '%']

/-- The pass stays in the format, and the loop goes on behind what it takes. -/
def Goes (print : List Byte → σ → σ) (stale : Stale) (around : Int → Byte) (s : Locals σ) : Prop :=
  Inside s ∧ ∃ t, pass_around print stale around s = .ok t ∧ Fed t ∧ t.format.length < s.format.length ∧
    (Even (trailing t.format) ↔ Even (trailing s.format))

theorem printc_reads_le {i : Nat} {c : Byte} {format : List Byte} :
    ∀ j ∈ printc_reads i (c :: format), j ≤ i + (c :: format).length := by
  intro j hj
  obtain ⟨k, hk, rfl⟩ := List.mem_map.mp hj
  have hlen := (@List.takeWhile_prefix _ format (· ≠ ascii '%')).length_le
  rw [List.mem_range, List.tail_cons] at hk
  rw [List.length_cons]
  omega

theorem Inside.literal {c : Byte} {format : List Byte} (hformat : s.format = c :: format) (hc : c ≠ ascii '%') :
    Inside s := by
  unfold Inside pass_reads
  rw [hformat]
  dsimp only
  rw [if_pos hc]
  refine List.forall_mem_cons.mpr ⟨Nat.zero_le _, fun j hj => ?_⟩
  have hle := printc_reads_le j hj
  rwa [Nat.zero_add] at hle

/-- Behind a `%` that it does not parse, the pass stays inside unless that is the end. -/
theorem Inside.skip {c : Byte} {format : List Byte} (hformat : s.format = ascii '%' :: c :: format)
    (hparses : ¬ Parses s) : Inside s := by
  unfold Inside pass_reads
  rw [hformat]
  dsimp only
  rw [if_neg (not_not.mpr rfl), if_neg hparses]
  refine List.forall_mem_append.mpr ⟨by simp, fun j hj => ?_⟩
  have hle := printc_reads_le j hj
  rw [List.length_cons]
  omega

theorem Inside.parse {c : Byte} {format : List Byte} (hformat : s.format = ascii '%' :: c :: format)
    (hparses : Parses s) : Inside s := by
  unfold Inside pass_reads
  rw [hformat]
  dsimp only
  rw [if_neg (not_not.mpr rfl), if_pos hparses]
  refine List.forall_mem_append.mpr ⟨fun j hj => ?_, fun j hj => ?_⟩
  · rw [List.mem_range] at hj
    rw [List.length_cons]
    omega
  · split at hj
    · exact absurd hj List.not_mem_nil
    · have hle := printc_reads_le j hj
      rw [List.length_cons]
      omega

theorem Lone.not_inside (h : Lone s) : ¬ Inside s := by
  have hnul : 2 ∈ printc_reads 1 [] := by decide
  have hmem : 2 ∈ pass_reads s := by
    unfold pass_reads
    rw [h]
    dsimp only
    rw [if_neg (not_not.mpr rfl)]
    split
    · have hnil : (specified s).format = [] := by
        have hsuffix : (specified s).format <:+ s.format.tail := flags_suffix _
        rw [h] at hsuffix
        exact List.suffix_nil.mp hsuffix
      have hno : ¬ AtSpecifier (specified s) := by
        rintro ⟨c, -, hc⟩
        rw [hnil] at hc
        cases hc
      rw [if_neg hno]
      exact List.mem_append_right _ hnul
    · exact List.mem_append_right _ hnul
  intro hinside
  have hle := hinside 2 hmem
  rw [h] at hle
  exact absurd hle (by decide)

/-! ## What a pass takes -/

theorem pass_literal {c : Byte} {format : List Byte} (hformat : s.format = c :: format) (hc : c ≠ ascii '%') :
    pass_around print stale around s = printc print s := by
  have hparses : ¬ Parses s := fun h => by
    have hat := h.1
    rw [Locals.at, hformat] at hat
    exact hc (Option.some.inj hat)
  unfold pass_around pass
  rw [if_neg fun h => hparses h.1, hformat]
  exact if_pos hc

/-- What a `%` is that is not parsed. -/
theorem skips {format : List Byte} (hformat : s.format = ascii '%' :: format) (hparses : ¬ Parses s) :
    format.head? = some (ascii '%') ∨ s.rejected_formater = true := by
  by_contra hno
  obtain ⟨hhead, hrejected⟩ := not_or.mp hno
  refine hparses ⟨?_, ?_, Bool.eq_false_iff.mpr hrejected⟩
  · rw [Locals.at, hformat]
    rfl
  · rwa [hformat]

theorem pass_skips {format : List Byte} (hformat : s.format = ascii '%' :: format) (hparses : ¬ Parses s) :
    pass_around print stale around s = printc print { s with format } := by
  unfold pass_around pass
  rw [if_neg fun h => hparses h.1, hformat]
  dsimp only
  rw [if_neg (not_not.mpr rfl)]
  split
  · rfl
  · rename_i hhead
    rw [if_pos ((skips hformat hparses).resolve_left hhead)]

theorem pass_around_parses (h : Parses s) : pass_around print stale around s =
    if (specified s).at 'd' ∨ (specified s).at 'i' then Locals.finish <$> signed_around print around (specified s)
    else specifier print stale s.format.tail (specified s) := by
  unfold pass_around
  rw [pass_parses h]
  simp only [h, true_and]

/-- The text behind the flags. -/
theorem specified_eq (h : s.length = 0) :
    let flagged := if s.format.tail.head? = some (ascii '#') then s.format.tail.tail else s.format.tail
    (specified s).format = flagged.dropWhile (· = ascii 'l') ∧
      (specified s).length = (flagged.takeWhile (· = ascii 'l')).length ∧
      (specified s).params = s.params ∧ (specified s).rejected_formater = s.rejected_formater := by
  unfold specified flags
  dsimp only
  rw [h]
  split <;> exact ⟨rfl, Nat.zero_add _, rfl, rfl⟩

/-! ## Passes that go on -/

theorem printc_spec {c : Byte} {format : List Byte} (hformat : t.format = c :: format) :
    ∃ u, printc print t = .ok u ∧ u.format = format.dropWhile (· ≠ ascii '%') ∧ u.params = t.params ∧
      u.length = t.length ∧ u.rejected_formater = t.rejected_formater := by
  unfold printc
  rw [hformat]
  exact ⟨_, rfl, rfl, rfl, rfl, rfl⟩

/-- From `printc` on, at a character of the format. -/
theorem Goes.of_printc {c : Byte} {format : List Byte} (hinside : Inside s)
    (hpass : pass_around print stale around s = printc print t) (hformat : t.format = c :: format)
    (hlength : t.length = 0) (hshort : t.format.length ≤ s.format.length)
    (hargs : t.rejected_formater = true ∨ ∃ fuel, (format.dropWhile (· ≠ ascii '%')).length ≤ fuel ∧
      asks fuel (format.dropWhile (· ≠ ascii '%')) <+: t.params.map Arg.type)
    (htrailing : Even (trailing format) ↔ Even (trailing s.format)) : Goes print stale around s := by
  obtain ⟨u, hprintc, huformat, huparams, hulength, hurejected⟩ := @printc_spec _ print _ _ _ hformat
  have hle := (List.dropWhile_suffix (l := format) (· ≠ ascii '%')).length_le
  rw [hformat, List.length_cons] at hshort
  refine ⟨hinside, u, hpass.trans hprintc, ⟨hulength.trans hlength, ?_⟩, ?_, ?_⟩
  · rw [hurejected, huformat, huparams]
    exact hargs
  · rw [huformat]
    omega
  · rw [huformat, trailing_dropWhile]
    exact htrailing

theorem Fed.goes_literal {c : Byte} {format : List Byte} (h : Fed s) (hformat : s.format = c :: format)
    (hc : c ≠ ascii '%') : Goes print stale around s := by
  refine .of_printc (.literal hformat hc) (pass_literal hformat hc) hformat h.length le_rfl ?_ ?_
  · refine h.args.imp_right ?_
    rintro ⟨fuel, hfuel, hargs⟩
    rw [hformat] at hfuel hargs
    obtain ⟨fuel, rfl⟩ : ∃ k, fuel = k + 1 := ⟨fuel - 1, by rw [List.length_cons] at hfuel; omega⟩
    rw [asks, if_pos hc] at hargs
    have hle := (List.dropWhile_suffix (l := format) (· ≠ ascii '%')).length_le
    rw [List.length_cons] at hfuel
    exact ⟨fuel, by omega, hargs⟩
  · rw [hformat, show c :: format = [c] ++ format from rfl, trailing_append (by simpa using hc)]

/-- A `%` in front of a character that is not a `%` goes with it. -/
theorem trailing_pair {c : Byte} {format : List Byte} (hc : c ≠ ascii '%') :
    trailing (ascii '%' :: c :: format) = trailing format :=
  @trailing_append [ascii '%', c] (by simpa using hc) format

theorem Fed.goes_skip {c : Byte} {format : List Byte} (h : Fed s) (hformat : s.format = ascii '%' :: c :: format)
    (hparses : ¬ Parses s) : Goes print stale around s := by
  have hskip : c = ascii '%' ∨ s.rejected_formater = true := (skips hformat hparses).imp_left Option.some.inj
  refine .of_printc (.skip hformat hparses) (pass_skips hformat hparses) rfl h.length ?_ ?_ ?_
  · rw [hformat]
    exact Nat.le_succ _
  · obtain hrejected | ⟨fuel, hfuel, hargs⟩ := h.args
    · exact .inl hrejected
    · refine hskip.symm.imp_right fun hc => ?_
      rw [hformat, List.length_cons, List.length_cons] at hfuel
      obtain ⟨fuel, rfl⟩ : ∃ k, fuel = k + 1 := ⟨fuel - 1, by omega⟩
      rw [hformat, asks, if_neg (not_not.mpr rfl), if_pos (by rw [hc]; rfl)] at hargs
      have hle := (List.dropWhile_suffix (l := format) (· ≠ ascii '%')).length_le
      exact ⟨fuel, by omega, hargs⟩
  · rw [hformat]
    by_cases hc : c = ascii '%'
    · rw [hc]
      exact (even_trailing_pair format).symm
    · rw [trailing_pair hc]

theorem Fed.goes_parse {c : Byte} {format : List Byte} (h : Fed s) (hformat : s.format = ascii '%' :: c :: format)
    (hparses : Parses s) : Goes print stale around s := by
  have hinside : Inside s := .parse hformat hparses
  have hpass := @pass_around_parses _ print stale around s hparses
  have hhead : c ≠ ascii '%' := by
    have hne := hparses.2.1
    rw [hformat] at hne
    exact fun hc => hne (congrArg some hc)
  obtain ⟨hspecified, hlength, hparams, hrejected⟩ := specified_eq h.length
  by_cases hat : AtSpecifier (specified s)
  · obtain ⟨l, hl, hhead'⟩ := hat
    obtain ⟨rest, hrest⟩ := List.head?_eq_some_iff.mp hhead'
    obtain ⟨mid, hmid⟩ : (specified s).format <:+ s.format.tail := flags_suffix _
    have hsplit : s.format = (ascii '%' :: mid ++ [l]) ++ rest := by
      rw [hrest, hformat, List.tail_cons] at hmid
      rw [hformat, ← hmid, List.append_assoc]
      rfl
    have hparse : ∃ fuel, rest.length ≤ fuel ∧
        asked (specified s).length l ++ asks fuel rest <+: (specified s).params.map Arg.type := by
      obtain ⟨fuel, hfuel, hargs⟩ := h.args.resolve_left (by rw [hparses.2.2]; exact Bool.false_ne_true)
      rw [hsplit] at hfuel
      simp only [List.length_append, List.length_cons] at hfuel
      obtain ⟨fuel, rfl⟩ : ∃ k, fuel = k + 1 := ⟨fuel - 1, by omega⟩
      refine ⟨fuel, by omega, ?_⟩
      have hnext : ¬ (c :: format).head? = some (ascii '%') := fun hc => hhead (Option.some.inj hc)
      rw [hformat, List.tail_cons, hrest] at hspecified
      rw [hformat, List.tail_cons] at hlength
      rw [hformat, asks, if_neg (not_not.mpr rfl), if_neg hnext] at hargs
      dsimp only at hargs
      rw [← hspecified] at hargs
      dsimp only at hargs
      rwa [if_pos hl, ← hlength, ← hparams] at hargs
    obtain ⟨fuel, hfuel, hargs⟩ := hparse
    obtain ⟨out, n, params, buffer, hprinted, hleft⟩ := specifier_printed hl hhead' hargs
    refine ⟨hinside, _, hpass.trans hprinted, ⟨rfl, .inr ⟨fuel, ?_, ?_⟩⟩, ?_, ?_⟩
    · show (specified s).format.tail.length ≤ fuel
      rw [hrest]
      exact hfuel
    · show asks fuel (specified s).format.tail <+: _
      rw [hrest]
      exact hleft
    · show (specified s).format.tail.length < s.format.length
      rw [hrest, hsplit, List.tail_cons, List.length_append, List.length_append, List.length_singleton]
      omega
    · show Even (trailing (specified s).format.tail) ↔ Even (trailing s.format)
      have hlast : (ascii '%' :: mid ++ [l]).getLast? ≠ some (ascii '%') := by
        rw [List.getLast?_concat]
        exact fun hlast => absurd (Option.some.inj hlast ▸ hl) (by decide)
      rw [hrest, hsplit, List.tail_cons, trailing_append hlast]
  · obtain ⟨-, -, hsigned, -⟩ := not_at hat
    rw [if_neg hsigned, specifier_unknown hat, hformat] at hpass
    refine .of_printc hinside hpass rfl rfl ?_ (.inl rfl) ?_
    · rw [hformat]
      exact Nat.le_succ _
    · rw [hformat, trailing_pair hhead]

theorem Fed.goes (h : Fed s) (hne : s.format ≠ []) (hlone : ¬ Lone s) : Goes print stale around s := by
  obtain ⟨c, format, hformat⟩ := List.exists_cons_of_ne_nil hne
  by_cases hc : c = ascii '%'
  · rw [hc] at hformat
    cases format with
    | nil => exact absurd hformat hlone
    | cons c format =>
      by_cases hparses : Parses s
      · exact h.goes_parse hformat hparses
      · exact h.goes_skip hformat hparses
  · exact h.goes_literal hformat hc

/-! ## Runs -/

theorem loop_nil (hnil : s.format = []) (fuel : Nat) :
    ((∃ t, passes_around print stale around fuel s = .ok t) ∧
      ∀ t, Relation.ReflTransGen (Next print stale around) s t → Inside t) ↔ Even (trailing s.format) := by
  refine iff_of_true ⟨⟨s, by cases fuel <;> exact if_pos hnil⟩, fun t ht => ?_⟩ ?_
  · obtain rfl | ⟨u, ⟨hne, -⟩, -⟩ := ht.cases_head
    · unfold Inside pass_reads
      rw [hnil]
      exact List.forall_mem_singleton.mpr le_rfl
    · exact absurd hnil hne
  · rw [hnil]
    exact Even.zero

/-- From a head of the loop on. -/
theorem loop_reads_iff {fuel : Nat} (h : Fed s) (hfuel : s.format.length ≤ fuel) :
    ((∃ t, passes_around print stale around fuel s = .ok t) ∧
      ∀ t, Relation.ReflTransGen (Next print stale around) s t → Inside t) ↔ Even (trailing s.format) := by
  induction fuel generalizing s with
  | zero =>
    have hnil : s.format = [] := List.length_eq_zero_iff.mp (Nat.le_zero.mp hfuel)
    exact loop_nil hnil 0
  | succ fuel ih =>
    by_cases hnil : s.format = []
    · exact loop_nil hnil (fuel + 1)
    by_cases hlone : Lone s
    · refine iff_of_false (fun hrun => hlone.not_inside (hrun.2 s .refl)) ?_
      rw [show s.format = [ascii '%'] from hlone]
      decide
    · obtain ⟨hinside, t, hpass, hfed, hshort, htrailing⟩ := @Fed.goes _ print stale around _ h hnil hlone
      have hpasses : passes_around print stale around (fuel + 1) s = passes_around print stale around fuel t := by
        rw [passes_around, if_neg hnil, hpass]
        rfl
      rw [hpasses, ← htrailing, ← ih hfed (by omega)]
      refine and_congr_right fun _ => ⟨fun hall u hu => hall u (.head ⟨hnil, hpass⟩ hu), fun hall u hu => ?_⟩
      -- the only way on from `s` is to `t`
      obtain rfl | ⟨t', ⟨-, hpass'⟩, hu⟩ := hu.cases_head
      · exact hinside
      · rw [hpass] at hpass'
        cases hpass'
        exact hall u hu

end Directives

/-- **Reads of the format.** With arguments of the types that the directives take, `vprintf` returns and reads no
byte of the format behind its NUL if and only if the format does not end in an odd number of `%`. -/
theorem vprintf_reads_iff (stale : Stale) (around : Int → Byte) (format : CString) (params : List Arg)
    (h : Feeds format.bytes params) :
    ((∃ s, passes_around putchars stale around format.bytes.length (entry stale format params []) = .ok s) ∧
      ∀ s, Relation.ReflTransGen (Next putchars stale around) (entry stale format params []) s → Inside s) ↔
      Even (trailing format.bytes) :=
  loop_reads_iff ⟨rfl, .inr ⟨_, le_rfl, h⟩⟩ le_rfl

/-- Locals and a memory that are zero where the code has not written them. -/
def Stale.zero : Stale := ⟨0, fun _ => 0, fun _ => 0⟩

def percent_d : CString := ⟨[ascii '%', ascii 'd', ascii '%', ascii '%'], by decide⟩

/-- A directive for the least `int`, and `%%`. -/
theorem vprintf_reads_d :
    (∃ s, passes_around putchars .zero (fun _ => 0) 4 (entry .zero percent_d [.int INT_MIN] []) = .ok s) ∧
      ∀ s, Relation.ReflTransGen (Next putchars .zero fun _ => 0) (entry .zero percent_d [.int INT_MIN] []) s →
        Inside s :=
  (vprintf_reads_iff .zero (fun _ => 0) percent_d [.int INT_MIN] (by decide)).mpr (by decide)

/-- The format that is one `%`. -/
theorem vprintf_lone_percent :
    let format : CString := ⟨[ascii '%'], by decide⟩
    Feeds format.bytes [] ∧
    ¬ ∀ s, Relation.ReflTransGen (Next putchars .zero fun _ => 0) (entry .zero format [] []) s → Inside s :=
  have hlone : Lone (entry .zero ⟨[ascii '%'], by decide⟩ [] ([] : List Byte)) := rfl
  ⟨by decide, fun h => hlone.not_inside (h _ .refl)⟩

end Condor.Libc
