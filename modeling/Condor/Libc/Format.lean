import Condor.Libc.Numbers
import Condor.Lib.Loop

/-!
# The format parser

`vprintf` and `vsprintf` are two copies of one loop over the format that differ in
`print` only, so the loop is a function of `print` here. `Locals` is what one pass
of the loop hands to the next, and `Stale` is what the locals hold that the loop
reads before it has written them.
-/

namespace Condor.Libc

/-- A string in memory, without its NUL. -/
structure CString where
  bytes : List Byte
  no_nul : 0#8 ∉ bytes

/-- An argument: 32 bits (`int`, `int32_t`, `uint32_t`), 64 bits or a string. -/
inductive Arg where
  | int (v : BitVec 32)
  | int64 (v : BitVec 64)
  | str (s : CString)

/-- `amount` at entry, `number` of a directive that does not set it (by the characters left in the
format) and the buffer for the digits. -/
structure Stale where
  amount : BitVec 32
  number : Nat → BitVec 32
  buffer : Buffer

structure Locals (σ : Type) where
  format : List Byte
  params : List Arg
  amount : BitVec 32
  rejected_formater : Bool
  pound : Bool
  length : Nat
  written : BitVec 32
  buffer : Buffer
  out : σ

/-- `*format == c`. -/
abbrev Locals.at {σ : Type} (s : Locals σ) (c : Char) : Prop := s.format.head? = some (ascii c)

/-- An argument of another type is not what `va_arg` expects. -/
def va_int : List Arg → Except Stop (BitVec 32 × List Arg)
  | .int v :: params => .ok (v, params)
  | _ => .error .wild

def va_int64 : List Arg → Except Stop (BitVec 64 × List Arg)
  | .int64 v :: params => .ok (v, params)
  | _ => .error .wild

def va_str : List Arg → Except Stop (CString × List Arg)
  | .str s :: params => .ok (s, params)
  | _ => .error .wild

section Parser

variable {σ : Type} (print : List Byte → σ → σ) (stale : Stale)

/-- From the label `printc` on. At the end of the format it would read behind the NUL. -/
def printc (s : Locals σ) : Except Stop (Locals σ) :=
  match s.format with
  | [] => .error .wild
  | c :: format =>
    let data := c :: format.takeWhile (· ≠ ascii '%')
    .ok { s with
      amount := BitVec.ofNat 32 data.length
      written := s.written + BitVec.ofNat 32 data.length
      format := format.dropWhile (· ≠ ascii '%')
      out := print data s.out }

/-- `#` and any number of `l`. -/
def flags (s : Locals σ) : Locals σ :=
  let s := if s.at '#' then { s with pound := true, format := s.format.tail } else s
  { s with
    length := s.length + (s.format.takeWhile (· = ascii 'l')).length
    format := s.format.dropWhile (· = ascii 'l') }

def char_directive (s : Locals σ) : Except Stop (Locals σ) := do
  let (c, params) ← va_int s.params
  .ok { s with params, format := s.format.tail, out := print [c.setWidth 8] s.out }

def string_directive (s : Locals σ) : Except Stop (Locals σ) := do
  let (str, params) ← va_str s.params
  .ok { s with params, format := s.format.tail, out := print str.bytes s.out }

/-- `amount += strlen(buffer)` and `print(buffer, strlen(buffer))`. -/
def print_buffer (s : Locals σ) (buffer : Buffer) : Locals σ :=
  { s with
    buffer
    amount := s.amount + BitVec.ofNat 32 (string buffer).length
    format := s.format.tail
    out := print (string buffer) s.out }

/-- `number` of a signed directive: a `size_t` keeps the low half of 64 bits. -/
def signed_number (s : Locals σ) : Except Stop (BitVec 32 × List Arg) :=
  if s.length = 1 then va_int s.params
  else if s.length = 2 then (fun a => (a.1.setWidth 32, a.2)) <$> va_int64 s.params
  else va_int s.params

def signed_directive (s : Locals σ) : Except Stop (Locals σ) := do
  let (number, params) ← signed_number s
  let buffer ← itoa number s.buffer 10
  .ok (print_buffer print { s with params } buffer)

def unsigned_directive (s : Locals σ) : Except Stop (Locals σ) := do
  let (number, params) ← va_int s.params
  let buffer ← ultoa number s.buffer 10
  .ok (print_buffer print { s with params } buffer)

/-- `number` of a hexadecimal directive: without an `l`, or with more than two, nothing sets it. -/
def hex_number (s : Locals σ) : Except Stop (BitVec 32 × List Arg) :=
  if s.length = 1 ∨ s.length = 2 then va_int s.params
  else .ok (stale.number s.format.length, s.params)

/-- `%x` turns the digits to lower case, `%X` does not. -/
def hex_case (lower : Bool) (buffer : Buffer) : Except Stop Buffer :=
  if lower then lower_string 65 0 buffer else .ok buffer

def hex_directive (lower : Bool) (s : Locals σ) : Except Stop (Locals σ) := do
  let (number, params) ← hex_number stale s
  let out := if s.pound then print [ascii '0', ascii 'x'] s.out else s.out
  let buffer ← ultoa number s.buffer 16
  let amount := s.amount + BitVec.ofNat 32 (string buffer).length
  let buffer ← hex_case lower buffer
  .ok { s with params, buffer, amount, format := s.format.tail, out := print (string buffer) out }

/-- The end of a pass that printed a directive. -/
def Locals.finish (s : Locals σ) : Locals σ :=
  { s with length := 0, written := s.written + s.amount, amount := 0#32, pound := false }

def specifier (format_start : List Byte) (s : Locals σ) : Except Stop (Locals σ) :=
  if s.at 'c' then Locals.finish <$> char_directive print s
  else if s.at 's' then Locals.finish <$> string_directive print s
  else if s.at 'd' ∨ s.at 'i' then Locals.finish <$> signed_directive print s
  else if s.at 'u' then Locals.finish <$> unsigned_directive print s
  else if s.at 'x' then Locals.finish <$> hex_directive print stale true s
  else if s.at 'X' then Locals.finish <$> hex_directive print stale false s
  else
    printc print { s with
      length := 0, amount := 0#32, pound := false, rejected_formater := true, format := format_start }

/-- One pass of the loop. -/
def pass (s : Locals σ) : Except Stop (Locals σ) :=
  match s.format with
  | [] => .ok s
  | c :: format =>
    if c ≠ ascii '%' then printc print s
    else if format.head? = some (ascii '%') then printc print { s with format }
    else if s.rejected_formater then printc print { s with format }
    else specifier print stale format (flags { s with format })

def passes : Nat → Locals σ → Except Stop (Locals σ)
  | 0, s => if s.format = [] then .ok s else .error .pending
  | fuel + 1, s => if s.format = [] then .ok s else pass print stale s >>= passes fuel

/-- The locals at entry. -/
def entry (format : CString) (params : List Arg) (out : σ) : Locals σ :=
  { format := format.bytes, params, amount := stale.amount, rejected_formater := false, pound := false,
    length := 0, written := 0#32, buffer := stale.buffer, out }

/-- Each pass takes a character of the format at least. -/
def format_loop (format : CString) (params : List Arg) (out : σ) : Except Stop (Locals σ) :=
  passes print stale format.bytes.length (entry stale format params out)

end Parser

/-- `print` of `vprintf`, on what was passed to `putchar` so far. -/
def putchars (data out : List Byte) : List Byte := out ++ data

def vprintf (stale : Stale) (format : CString) (params : List Arg) :
    Except Stop (BitVec 32 × List Byte) := do
  let s ← format_loop putchars stale format params []
  .ok (s.written, s.out)

/-- `dest` and `index`. -/
structure Dest where
  dest : Buffer
  index : Nat

/-- `print` of `vsprintf`: `i` and `*offset` are the same number. -/
def Dest.print (data : List Byte) (d : Dest) : Dest :=
  Lib.loop d.index data.length d fun i d =>
    { dest := Function.update d.dest i (data.getD i 0#8), index := d.index + 1 }

def vsprintf (stale : Stale) (dest : Buffer) (format : CString) (params : List Arg) :
    Except Stop (BitVec 32 × Buffer) := do
  let s ← format_loop Dest.print stale format params ⟨dest, 0⟩
  .ok (s.written, (s.out.print [0#8]).dest)

/-! ## What a pass does -/

/-- The pass takes characters of the format, and only the first of what it prints at once can be NUL. -/
structure Progress {σ : Type} (print : List Byte → σ → σ) (s t : Locals σ) : Prop where
  suffix : t.format <:+ s.format.tail
  printed : ∃ chunks : List (List Byte), (∀ data ∈ chunks, 0#8 ∉ data.tail) ∧
    t.out = chunks.foldl (fun out data => print data out) s.out

variable {σ : Type} {print : List Byte → σ → σ} {stale : Stale} {s t : Locals σ}

/-- A directive that prints one string. -/
theorem Progress.one {data : List Byte} (hformat : t.format = s.format.tail) (hdata : 0#8 ∉ data.tail)
    (hout : t.out = print data s.out) : Progress print s t where
  suffix := hformat ▸ List.suffix_refl _
  printed := ⟨[data], List.forall_mem_singleton.mpr hdata, hout⟩

theorem nul_notMem_string (str : Buffer) : 0#8 ∉ string str := by
  intro hmem
  have hne := List.all_takeWhile (l := (List.range 65).map str) (p := (· ≠ 0#8))
  exact absurd rfl (of_decide_eq_true (List.all_eq_true.mp hne _ hmem))

theorem nul_notMem_tail {data : List Byte} (h : 0#8 ∉ data) : 0#8 ∉ data.tail :=
  fun hmem => h (List.mem_of_mem_tail hmem)

theorem printc_progress (hnul : 0#8 ∉ s.format) (h : printc print s = .ok t) : Progress print s t := by
  unfold printc at h
  split at h
  · cases h
  · rename_i c format hformat
    cases h
    refine ⟨?_, [c :: format.takeWhile (· ≠ ascii '%')], List.forall_mem_singleton.mpr fun hmem => ?_, rfl⟩
    · rw [hformat]
      exact List.dropWhile_suffix _
    · exact hnul (hformat ▸ List.mem_cons_of_mem _ (List.takeWhile_subset _ hmem))

theorem char_progress (h : char_directive print s = .ok t) : Progress print s t := by
  obtain ⟨⟨c, params⟩, -, h⟩ := Lib.bind_eq_ok.mp h
  cases h
  exact .one rfl List.not_mem_nil rfl

theorem string_progress (h : string_directive print s = .ok t) : Progress print s t := by
  obtain ⟨⟨str, params⟩, -, h⟩ := Lib.bind_eq_ok.mp h
  cases h
  exact .one rfl (nul_notMem_tail str.no_nul) rfl

theorem signed_progress (h : signed_directive print s = .ok t) : Progress print s t := by
  obtain ⟨⟨number, params⟩, -, h⟩ := Lib.bind_eq_ok.mp h
  obtain ⟨buffer, -, h⟩ := Lib.bind_eq_ok.mp h
  cases h
  exact .one rfl (nul_notMem_tail (nul_notMem_string buffer)) rfl

theorem unsigned_progress (h : unsigned_directive print s = .ok t) : Progress print s t := by
  obtain ⟨⟨number, params⟩, -, h⟩ := Lib.bind_eq_ok.mp h
  obtain ⟨buffer, -, h⟩ := Lib.bind_eq_ok.mp h
  cases h
  exact .one rfl (nul_notMem_tail (nul_notMem_string buffer)) rfl

theorem hex_progress {lower : Bool} (h : hex_directive print stale lower s = .ok t) :
    Progress print s t := by
  obtain ⟨⟨number, params⟩, -, h⟩ := Lib.bind_eq_ok.mp h
  obtain ⟨buffer, -, h⟩ := Lib.bind_eq_ok.mp h
  obtain ⟨buffer', -, h⟩ := Lib.bind_eq_ok.mp h
  cases h
  have hdigits := nul_notMem_tail (nul_notMem_string buffer')
  cases hpound : s.pound with
  | false => exact .one rfl hdigits rfl
  | true =>
    refine ⟨List.suffix_refl _, [[ascii '0', ascii 'x'], string buffer'], ?_, rfl⟩
    exact List.forall_mem_cons.mpr ⟨by decide, List.forall_mem_singleton.mpr hdigits⟩

theorem Progress.finish (h : Progress print s t) : Progress print s t.finish := ⟨h.suffix, h.printed⟩

theorem flags_suffix (s : Locals σ) : (flags s).format <:+ s.format := by
  unfold flags
  split
  · exact (List.dropWhile_suffix _).trans (List.tail_suffix _)
  · exact List.dropWhile_suffix _

theorem flags_out (s : Locals σ) : (flags s).out = s.out := by
  unfold flags
  split <;> rfl

theorem specifier_progress {format_start : List Byte} (hnul : 0#8 ∉ format_start)
    (h : specifier print stale format_start s = .ok t) :
    Progress print s t ∨ Progress print { s with format := format_start } t := by
  have hfinish {x : Except Stop (Locals σ)} (hx : Locals.finish <$> x = .ok t)
      (hprogress : ∀ t, x = .ok t → Progress print s t) : Progress print s t := by
    cases x with
    | error e => cases hx
    | ok t => cases hx; exact (hprogress t rfl).finish
  unfold specifier at h
  split at h
  · exact .inl (hfinish h fun t => char_progress)
  split at h
  · exact .inl (hfinish h fun t => string_progress)
  split at h
  · exact .inl (hfinish h fun t => signed_progress)
  split at h
  · exact .inl (hfinish h fun t => unsigned_progress)
  split at h
  · exact .inl (hfinish h fun t => hex_progress)
  split at h
  · exact .inl (hfinish h fun t => hex_progress)
  · obtain ⟨hsuffix, hprinted⟩ := printc_progress hnul h
    exact .inr ⟨hsuffix, hprinted⟩

theorem pass_progress (hnul : 0#8 ∉ s.format) (hne : s.format ≠ []) (h : pass print stale s = .ok t) :
    Progress print s t := by
  unfold pass at h
  split at h
  · rename_i hnil
    exact absurd hnil hne
  rename_i c format hformat
  have htail : s.format.tail = format := by rw [hformat]; rfl
  have hnul' : 0#8 ∉ format := htail ▸ nul_notMem_tail hnul
  have hskip (h : printc print { s with format } = .ok t) : Progress print s t := by
    obtain ⟨hsuffix, hprinted⟩ := printc_progress hnul' h
    exact ⟨htail ▸ hsuffix.trans (List.tail_suffix _), hprinted⟩
  split at h
  · exact printc_progress hnul h
  split at h
  · exact hskip h
  split at h
  · exact hskip h
  have hflags := flags_suffix { s with format }
  have hout := flags_out { s with format }
  obtain hprogress | hprogress := specifier_progress hnul' h
  · refine ⟨htail ▸ (hprogress.suffix.trans (List.tail_suffix _)).trans hflags, ?_⟩
    have hprinted := hprogress.printed
    rwa [hout] at hprinted
  · refine ⟨htail ▸ hprogress.suffix.trans (List.tail_suffix _), ?_⟩
    have hprinted := hprogress.printed
    rwa [show ({ flags { s with format } with format } : Locals σ).out = s.out from hout] at hprinted

/-! ## A directive of the format -/

/-- A directive with `n` times `l`. -/
def directive (pound : Bool) (n : Nat) (letter : Byte) : List Byte :=
  ascii '%' :: ((if pound then [ascii '#'] else []) ++ List.replicate n (ascii 'l') ++ [letter])

/-- A character that can follow the flags. -/
def Letter (c : Byte) : Prop := c ≠ ascii '%' ∧ c ≠ ascii '#' ∧ c ≠ ascii 'l'

theorem flags_directive {letter : Byte} (hletter : Letter letter) (pound : Bool) (n : Nat)
    {rest : List Byte}
    (hformat : s.format = (if pound then [ascii '#'] else []) ++ List.replicate n (ascii 'l') ++ letter :: rest) :
    flags s = { s with pound := s.pound || pound, length := s.length + n, format := letter :: rest } := by
  have htake : (List.replicate n (ascii 'l') ++ letter :: rest).takeWhile (· = ascii 'l') =
      List.replicate n (ascii 'l') := by
    rw [List.takeWhile_append_of_pos (by simp), List.takeWhile_cons_of_neg (by simpa using hletter.2.2),
      List.append_nil]
  have hdrop : (List.replicate n (ascii 'l') ++ letter :: rest).dropWhile
    (· = ascii 'l') = letter :: rest := by
    rw [List.dropWhile_append_of_pos (by simp), List.dropWhile_cons_of_neg (by simpa using hletter.2.2)]
  cases pound with
  | true =>
    rw [if_pos rfl, List.append_assoc, List.singleton_append] at hformat
    unfold flags
    rw [if_pos (by rw [Locals.at, hformat]; rfl)]
    simp only [hformat, List.tail_cons, htake, hdrop, List.length_replicate, Bool.or_true]
  | false =>
    rw [if_neg Bool.false_ne_true, List.nil_append] at hformat
    have hat : ¬ s.at '#' := by
      rw [Locals.at, hformat]
      cases n with
      | zero => simpa using hletter.2.1
      | succ n => exact fun h => absurd (Option.some.inj h) (by decide)
    unfold flags
    rw [if_neg hat]
    simp only [hformat, htake, hdrop, List.length_replicate, Bool.or_false]

/-- A pass at a directive, when no directive was rejected before. -/
theorem pass_directive {letter : Byte} (hletter : Letter letter) (pound : Bool) (n : Nat)
    {rest : List Byte}
    (hformat : s.format = directive pound n letter ++ rest) (hrejected : s.rejected_formater = false) :
    pass print stale s = specifier print stale s.format.tail
      { s with pound := s.pound || pound, length := s.length + n, format := letter :: rest } := by
  rw [directive, List.cons_append] at hformat
  have hhead : ((if pound then [ascii '#'] else []) ++ List.replicate n (ascii 'l') ++ [letter] ++ rest).head? ≠
      some (ascii '%') := by
    cases pound with
    | true => exact fun h => absurd (Option.some.inj h) (by decide)
    | false =>
      cases n with
      | zero => simpa using hletter.1
      | succ n => exact fun h => absurd (Option.some.inj h) (by decide)
  unfold pass
  rw [hformat]
  dsimp only
  rw [if_neg (not_not.mpr rfl), if_neg hhead, hrejected, if_neg Bool.false_ne_true,
    flags_directive hletter pound n (List.append_assoc ..)]
  rfl

section Specifiers

variable {format_start rest : List Byte}

theorem at_iff {c : Char} (h : s.format = ascii c :: rest) (c' : Char) :
    s.at c' ↔ ascii c = ascii c' := by
  rw [Locals.at, h, List.head?_cons, Option.some_inj]

theorem specifier_c (h : s.format = ascii 'c' :: rest) :
    specifier print stale format_start s = Locals.finish <$> char_directive print s := by
  simp [specifier, at_iff h]

theorem specifier_s (h : s.format = ascii 's' :: rest) :
    specifier print stale format_start s = Locals.finish <$> string_directive print s := by
  simp [specifier, at_iff h, ascii]

theorem specifier_d (h : s.format = ascii 'd' :: rest ∨ s.format = ascii 'i' :: rest) :
    specifier print stale format_start s = Locals.finish <$> signed_directive print s := by
  obtain h | h := h <;> simp [specifier, at_iff h, ascii]

theorem specifier_u (h : s.format = ascii 'u' :: rest) :
    specifier print stale format_start s = Locals.finish <$> unsigned_directive print s := by
  simp [specifier, at_iff h, ascii]

theorem specifier_x (h : s.format = ascii 'x' :: rest) :
    specifier print stale format_start s = Locals.finish <$> hex_directive print stale true s := by
  simp [specifier, at_iff h, ascii]

theorem specifier_X (h : s.format = ascii 'X' :: rest) :
    specifier print stale format_start s = Locals.finish <$> hex_directive print stale false s := by
  simp [specifier, at_iff h, ascii]

end Specifiers

/-! ## The loop -/

theorem Progress.shorter (h : Progress print s t) (hne : s.format ≠ []) :
    t.format.length < s.format.length := by
  have hle := h.suffix.length_le
  have hpos := List.length_pos_iff.mpr hne
  rw [List.length_tail] at hle
  omega

theorem Progress.no_nul (h : Progress print s t) (hnul : 0#8 ∉ s.format) : 0#8 ∉ t.format :=
  fun hmem => hnul (List.mem_of_mem_tail (h.suffix.subset hmem))

theorem passes_nil (hnil : s.format = []) (fuel : Nat) : passes print stale fuel s = .ok s := by
  cases fuel <;> exact if_pos hnil

theorem passes_succ (hne : s.format ≠ []) (fuel : Nat) :
    passes print stale (fuel + 1) s = pass print stale s >>= passes print stale fuel := if_neg hne

/-- The length of the format is fuel enough. -/
theorem passes_fuel (hnul : 0#8 ∉ s.format) {fuel : Nat} (hfuel : s.format.length ≤ fuel) :
    passes print stale fuel s = passes print stale s.format.length s := by
  induction fuel using Nat.strong_induction_on generalizing s with
  | _ fuel ih =>
    by_cases hnil : s.format = []
    · rw [passes_nil hnil, passes_nil hnil]
    have hpos := List.length_pos_iff.mpr hnil
    obtain ⟨fuel, rfl⟩ : ∃ k, fuel = k + 1 := ⟨fuel - 1, by omega⟩
    obtain ⟨len, hlen⟩ : ∃ k, s.format.length = k + 1 := ⟨s.format.length - 1, by omega⟩
    rw [hlen, passes_succ hnil, passes_succ hnil]
    cases hpass : pass print stale s with
    | error e => rfl
    | ok t =>
      have hprogress := pass_progress hnul hnil hpass
      have hshort := hprogress.shorter hnil
      have hnul' := hprogress.no_nul hnul
      show passes print stale fuel t = passes print stale len t
      rw [ih fuel (by omega) hnul' (by omega), ih len (by omega) hnul' (by omega)]

/-- The loop goes on with what a pass leaves. -/
theorem passes_pass (hnul : 0#8 ∉ s.format) (hne : s.format ≠ []) (hpass : pass print stale s = .ok t) :
    passes print stale s.format.length s = passes print stale t.format.length t := by
  have hprogress := pass_progress hnul hne hpass
  have hshort := hprogress.shorter hne
  obtain ⟨len, hlen⟩ : ∃ k, s.format.length = k + 1 := ⟨s.format.length - 1, by omega⟩
  rw [hlen, passes_succ hne, hpass]
  exact passes_fuel (hprogress.no_nul hnul) (by omega)

/-- What `print` keeps, the loop keeps. -/
theorem passes_keeps {P : σ → Prop} (hprint : ∀ data out, 0#8 ∉ data.tail → P out → P (print data out))
    (hnul : 0#8 ∉ s.format) (hP : P s.out) {fuel : Nat}
    (h : passes print stale fuel s = .ok t) : P t.out := by
  induction fuel generalizing s with
  | zero =>
    unfold passes at h
    split at h
    · cases h; exact hP
    · cases h
  | succ fuel ih =>
    by_cases hnil : s.format = []
    · rw [passes_nil hnil] at h
      cases h
      exact hP
    rw [passes_succ hnil] at h
    obtain ⟨u, hpass, h⟩ := Lib.bind_eq_ok.mp h
    have hprogress := pass_progress hnul hnil hpass
    refine ih (hprogress.no_nul hnul) ?_ h
    obtain ⟨chunks, htail, hout⟩ := hprogress.printed
    rw [hout]
    clear hout
    generalize s.out = out at hP
    induction chunks generalizing out with
    | nil => exact hP
    | cons data chunks ih =>
      obtain ⟨hdata, htail⟩ := List.forall_mem_cons.mp htail
      exact ih htail (print data out) (hprint data out hdata hP)

end Condor.Libc
