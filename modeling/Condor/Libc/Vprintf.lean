import Condor.Libc.Format

/-!
# What `vprintf` prints

A format of literal text, `%%` and directives is a list of `Piece`s, each directive
with the argument it stands for; `text` is the rendering. `vprintf` prints the
rendering and returns its length exactly when every hexadecimal directive has an
`l`, no signed directive prints the least `int`, the format does not start with a
directive, and what the count takes twice makes up for what it leaves out
(`vprintf_renders_iff`): `amount` is still the length of the text that was printed
last when a directive adds to it, and `%c`, `%s` and `0x` do not add to it at all.
-/

namespace Condor.Libc

/-! ## Formats -/

/-- The conversions, with the argument of each. -/
inductive Conv where
  | c (v : BitVec 32)
  | s (str : CString)
  | d (v : BitVec 32)
  | i (v : BitVec 32)
  | u (v : BitVec 32)
  | x (v : BitVec 32)
  | X (v : BitVec 32)

namespace Conv

def letter : Conv → Byte
  | .c _ => ascii 'c'
  | .s _ => ascii 's'
  | .d _ => ascii 'd'
  | .i _ => ascii 'i'
  | .u _ => ascii 'u'
  | .x _ => ascii 'x'
  | .X _ => ascii 'X'

def arg : Conv → Arg
  | .s str => .str str
  | .c v | .d v | .i v | .u v | .x v | .X v => .int v

def text : Conv → List Byte
  | .c v => [v.setWidth 8]
  | .s str => str.bytes
  | .d v | .i v => signed v
  | .u v => decimal v.toNat
  | .x v => hexadecimal v.toNat
  | .X v => numeral 16 v.toNat

def hex : Conv → Bool
  | .x _ | .X _ => true
  | .c _ | .s _ | .d _ | .i _ | .u _ => false

/-- The characters of `text` that the count takes. -/
def counted : Conv → Nat
  | .c _ | .s _ => 0
  | .d v | .i v => (signed v).length
  | .u v => (decimal v.toNat).length
  | .x v => (hexadecimal v.toNat).length
  | .X v => (numeral 16 v.toNat).length

/-- With an `l` or not, the code reads the argument and can print it. -/
def Ok (long : Bool) : Conv → Prop
  | .x _ | .X _ => long = true
  | .d v | .i v => v ≠ INT_MIN
  | .c _ | .s _ | .u _ => True

end Conv

inductive Piece where
  | literal (c : Byte) (hc : c ≠ 0#8 ∧ c ≠ ascii '%')
  | percent
  | directive (pound long : Bool) (conv : Conv)

namespace Piece

def source : Piece → List Byte
  | literal c _ => [c]
  | percent => [ascii '%', ascii '%']
  | directive pound long conv => Libc.directive pound long.toNat conv.letter

def args : Piece → List Arg
  | directive _ _ conv => [conv.arg]
  | _ => []

/-- `0x` in front of a hexadecimal number. -/
def zero_x (pound : Bool) (conv : Conv) : List Byte :=
  if pound && conv.hex then [ascii '0', ascii 'x'] else []

def text : Piece → List Byte
  | literal c _ => [c]
  | percent => [ascii '%']
  | directive pound _ conv => zero_x pound conv ++ conv.text

def Ok : Piece → Prop
  | directive _ long conv => conv.Ok long
  | _ => True

/-- The printed characters that the count leaves out. -/
def uncounted : Piece → Nat
  | directive pound _ conv => (zero_x pound conv).length + (conv.text.length - conv.counted)
  | _ => 0

end Piece

variable {ps : List Piece} {b : Nat} {tail : List Byte}

def source (ps : List Piece) : List Byte := ps.flatMap Piece.source

def args (ps : List Piece) : List Arg := ps.flatMap Piece.args

def text (ps : List Piece) : List Byte := ps.flatMap Piece.text

def uncounted (ps : List Piece) : Nat := (ps.map Piece.uncounted).sum

/-- The text since the last `%` that is in front of a directive, added up: the count takes it again. The
first of it is `b` characters longer. -/
def again (b : Nat) : List Piece → Nat
  | [] => 0
  | .literal _ _ :: ps => again (b + 1) ps
  | .percent :: ps => again 1 ps
  | .directive _ _ _ :: ps => b + again 0 ps

/-- What the code adds to `written`. -/
def counted (b : Nat) : List Piece → Nat
  | [] => 0
  | .literal _ _ :: ps => 1 + counted (b + 1) ps
  | .percent :: ps => 1 + counted 1 ps
  | .directive _ _ conv :: ps => b + conv.counted + counted 0 ps

theorem Conv.counted_le (conv : Conv) : conv.counted ≤ conv.text.length := by
  cases conv <;> first | exact Nat.zero_le _ | exact Nat.le_refl _

theorem counted_eq (b : Nat) (ps : List Piece) : counted b ps + uncounted ps = (text ps).length + again b ps := by
  induction ps generalizing b with
  | nil => rfl
  | cons p ps ih =>
    unfold uncounted text at *
    rw [List.map_cons, List.sum_cons, List.flatMap_cons, List.length_append]
    cases p with
    | literal c hc =>
      have := ih (b + 1)
      simp only [counted, again, Piece.uncounted, Piece.text, List.length_singleton]
      omega
    | percent =>
      have := ih 1
      simp only [counted, again, Piece.uncounted, Piece.text, List.length_singleton]
      omega
    | directive pound long conv =>
      have := ih 0
      have hle := conv.counted_le
      simp only [counted, again, Piece.uncounted, Piece.text, List.length_append]
      omega

theorem Conv.letter_spec (conv : Conv) : Letter conv.letter ∧ conv.letter ≠ 0#8 := by
  unfold Letter
  cases conv <;> simp only [letter] <;> decide

theorem Piece.source_no_nul (p : Piece) : 0#8 ∉ p.source := by
  cases p with
  | literal c hc => exact fun hmem => hc.1 (List.mem_singleton.mp hmem).symm
  | percent => decide
  | directive pound long conv =>
    have hletter := conv.letter_spec.2
    intro hmem
    simp only [source, Libc.directive, List.mem_cons, List.mem_append, List.mem_replicate,
      List.not_mem_nil, or_false] at hmem
    obtain h | (h | h) | h := hmem
    · revert h
      decide
    · revert h
      cases pound <;> decide
    · exact absurd h.2 (by decide)
    · exact hletter h.symm

theorem source_no_nul (ps : List Piece) : 0#8 ∉ source ps := by
  intro hmem
  obtain ⟨p, -, hp⟩ := List.mem_flatMap.mp hmem
  exact p.source_no_nul hp

/-- The format as it is in memory. -/
def format (ps : List Piece) : CString := ⟨source ps, source_no_nul ps⟩

/-! ## One directive -/

section Directive

variable {σ : Type} {print : List Byte → σ → σ} {stale : Stale} {s t : Locals σ}

/-- What a pass over a directive leaves. -/
def after_directive (s : Locals σ) (out : σ) (n : Nat) (rest : List Byte) (params : List Arg)
    (buffer : Buffer) : Locals σ :=
  { s with
    format := rest, params, buffer, out
    amount := 0#32, pound := false, length := 0
    written := s.written + (s.amount + BitVec.ofNat 32 n) }

variable {v : BitVec 32} {params : List Arg}

theorem char_spec (hparams : s.params = .int v :: params) :
    Locals.finish <$> char_directive print s =
      .ok (after_directive s (print [v.setWidth 8] s.out) 0 s.format.tail params s.buffer) := by
  rw [char_directive, hparams]
  show Except.ok (Locals.finish _) = _
  rw [Locals.finish, after_directive, BitVec.add_zero]

theorem string_spec {str : CString} (hparams : s.params = .str str :: params) :
    Locals.finish <$> string_directive print s =
      .ok (after_directive s (print str.bytes s.out) 0 s.format.tail params s.buffer) := by
  rw [string_directive, hparams]
  show Except.ok (Locals.finish _) = _
  rw [Locals.finish, after_directive, BitVec.add_zero]

theorem signed_number_int (hparams : s.params = .int v :: params) (hlength : s.length ≠ 2) :
    signed_number s = .ok (v, params) := by
  unfold signed_number
  rw [if_neg hlength, ite_self, hparams]
  rfl

theorem signed_spec (hparams : s.params = .int v :: params) (hlength : s.length ≠ 2) (hv : v ≠ INT_MIN) :
    ∃ buffer, Locals.finish <$> signed_directive print s =
      .ok (after_directive s (print (signed v) s.out) (signed v).length s.format.tail params buffer) := by
  obtain ⟨buffer, hitoa, hstarts⟩ := itoa_spec hv s.buffer
  refine ⟨buffer, ?_⟩
  rw [← string_signed hstarts, signed_directive, signed_number_int hparams hlength]
  show Locals.finish <$> (itoa v s.buffer 10 >>= _) = _
  rw [hitoa]
  rfl

theorem signed_wild (hparams : s.params = .int INT_MIN :: params) (hlength : s.length ≠ 2) :
    signed_directive print s = .error .wild := by
  rw [signed_directive, signed_number_int hparams hlength]
  show (itoa INT_MIN s.buffer 10 >>= fun buffer => .ok (print_buffer print { s with params } buffer)) = _
  rw [itoa_INT_MIN]
  rfl

theorem unsigned_spec (hparams : s.params = .int v :: params) :
    ∃ buffer, Locals.finish <$> unsigned_directive print s =
      .ok (after_directive s (print (decimal v.toNat) s.out) (decimal v.toNat).length s.format.tail params
        buffer) := by
  obtain ⟨buffer, hultoa, hstarts⟩ := ultoa_spec (show 1 < 10 by decide) (by decide) v s.buffer
  refine ⟨buffer, ?_⟩
  rw [decimal_eq, ← string_numeral (by decide) (by decide) v.isLt hstarts, unsigned_directive, hparams]
  show Locals.finish <$> (ultoa v s.buffer 10 >>= _) = _
  rw [hultoa]
  rfl

/-- The digits that `%x` and `%X` print. -/
def hex_text (lower : Bool) (n : Nat) : List Byte := if lower then hexadecimal n else numeral 16 n

theorem hex_case_spec (lower : Bool) {n : Nat} {str : Buffer} (hn : n < 2 ^ 32)
    (hstr : Starts str (numeral 16 n ++ [0#8])) :
    ∃ str', hex_case lower str = .ok str' ∧ string str' = hex_text lower n := by
  cases lower with
  | false => exact ⟨str, rfl, string_numeral (by decide) (by decide) hn hstr⟩
  | true => exact lower_numeral hn hstr

theorem hex_text_length (lower : Bool) (n : Nat) : (hex_text lower n).length = (numeral 16 n).length := by
  cases lower with
  | false => rfl
  | true =>
    show (hexadecimal n).length = _
    rw [hexadecimal, numeral, List.length_map, List.length_map]

/-- A hexadecimal directive prints whatever `number` is. -/
theorem hex_spec (lower : Bool) (hnumber : hex_number stale s = .ok (v, params)) :
    ∃ buffer, Locals.finish <$> hex_directive print stale lower s =
      .ok (after_directive s
        (print (hex_text lower v.toNat) (if s.pound then print [ascii '0', ascii 'x'] s.out else s.out))
        (hex_text lower v.toNat).length s.format.tail params buffer) := by
  obtain ⟨upper, hultoa, hstarts⟩ := ultoa_spec (show 1 < 16 by decide) (by decide) v s.buffer
  obtain ⟨buffer, hcase, hstring⟩ := hex_case_spec lower v.isLt hstarts
  refine ⟨buffer, ?_⟩
  rw [hex_text_length, ← string_numeral (by decide) (by decide) v.isLt hstarts, ← hstring, hex_directive, hnumber]
  show Locals.finish <$> (ultoa v s.buffer 16 >>= _) = _
  rw [hultoa]
  show Locals.finish <$> (hex_case lower upper >>= _) = _
  rw [hcase]
  rfl

theorem hex_number_long {long : Bool} (hlong : long = true) (hlength : s.length = long.toNat)
    (hparams : s.params = .int v :: params) : hex_number stale s = .ok (v, params) := by
  unfold hex_number
  rw [hlength, hlong, if_pos (.inl rfl), hparams]
  rfl

/-- A conversion that the code can print. -/
theorem specifier_conv {conv : Conv} {long : Bool} (hok : conv.Ok long) {rest : List Byte}
    (hformat : s.format = conv.letter :: rest) (hparams : s.params = conv.arg :: params)
    (hlength : s.length = long.toNat) (format_start : List Byte) :
    ∃ buffer, specifier print stale format_start s = .ok (after_directive s
      (print conv.text (if s.pound && conv.hex then print [ascii '0', ascii 'x'] s.out else s.out))
      conv.counted rest params buffer) := by
  have hlong2 : s.length ≠ 2 := by rw [hlength]; cases long <;> decide
  have htail : s.format.tail = rest := by rw [hformat]; rfl
  rw [← htail]
  cases conv with
  | c v =>
    rw [specifier_c hformat, char_spec hparams, Conv.hex, Bool.and_false]
    exact ⟨_, rfl⟩
  | s str =>
    rw [specifier_s hformat, string_spec hparams, Conv.hex, Bool.and_false]
    exact ⟨_, rfl⟩
  | d v =>
    rw [specifier_d (.inl hformat), Conv.hex, Bool.and_false]
    exact signed_spec hparams hlong2 hok
  | i v =>
    rw [specifier_d (.inr hformat), Conv.hex, Bool.and_false]
    exact signed_spec hparams hlong2 hok
  | u v =>
    rw [specifier_u hformat, Conv.hex, Bool.and_false]
    exact unsigned_spec hparams
  | x v =>
    rw [specifier_x hformat, Conv.hex, Bool.and_true]
    exact hex_spec true (hex_number_long hok hlength hparams)
  | X v =>
    rw [specifier_X hformat, Conv.hex, Bool.and_true]
    exact hex_spec false (hex_number_long hok hlength hparams)

end Directive

/-! ## A run over the format -/

/-- The text at the start of a format, and what follows it. -/
def leading : List Piece → List Byte
  | .literal c _ :: ps => c :: leading ps
  | _ => []

def after_leading : List Piece → List Piece
  | .literal _ _ :: ps => after_leading ps
  | ps => ps

/-- The format starts with a directive. -/
def StartsDirective : List Piece → Prop
  | .directive _ _ _ :: _ => True
  | _ => False

def StartsLiteral : List Piece → Prop
  | .literal _ _ :: _ => True
  | _ => False

/-- What comes behind a piece: nothing, or the next `%`. -/
def Tail (tail : List Byte) : Prop := tail = [] ∨ tail.head? = some (ascii '%')

theorem takeWhile_tail (h : Tail tail) : tail.takeWhile (· ≠ ascii '%') = [] := by
  obtain rfl | h := h
  · rfl
  · cases tail with
    | nil => rfl
    | cons c tail => exact List.takeWhile_cons_of_neg (by simpa using h)

theorem dropWhile_tail (h : Tail tail) : tail.dropWhile (· ≠ ascii '%') = tail := by
  obtain rfl | h := h
  · rfl
  · cases tail with
    | nil => rfl
    | cons c tail => exact List.dropWhile_cons_of_neg (by simpa using h)

theorem Piece.tail_source {p : Piece} (h : ∀ c hc, p ≠ .literal c hc) (l : List Byte) :
    Tail (p.source ++ l) := by
  cases p with
  | literal c hc => exact absurd rfl (h c hc)
  | percent => exact .inr rfl
  | directive => exact .inr rfl

theorem takeWhile_source (htail : Tail tail) (ps : List Piece) :
    (source ps ++ tail).takeWhile (· ≠ ascii '%') = leading ps := by
  unfold source
  induction ps with
  | nil => exact takeWhile_tail htail
  | cons p ps ih =>
    rw [List.flatMap_cons, List.append_assoc]
    cases p with
    | literal c hc =>
      show List.takeWhile _ (c :: (ps.flatMap Piece.source ++ tail)) = c :: leading ps
      rw [List.takeWhile_cons_of_pos (by simpa using hc.2), ih]
    | percent => exact takeWhile_tail (Piece.tail_source (fun c hc => by rintro ⟨⟩) _)
    | directive => exact takeWhile_tail (Piece.tail_source (fun c hc => by rintro ⟨⟩) _)

theorem dropWhile_source (htail : Tail tail) (ps : List Piece) :
    (source ps ++ tail).dropWhile (· ≠ ascii '%') = source (after_leading ps) ++ tail := by
  unfold source
  induction ps with
  | nil => exact dropWhile_tail htail
  | cons p ps ih =>
    cases p with
    | literal c hc =>
      show List.dropWhile _ (c :: (ps.flatMap Piece.source ++ tail)) = _
      rw [List.dropWhile_cons_of_pos (by simpa using hc.2), ih]
      rfl
    | percent =>
      rw [after_leading, List.flatMap_cons, List.append_assoc]
      · exact dropWhile_tail (Piece.tail_source (fun c hc => by rintro ⟨⟩) _)
      · rintro c hc ps' ⟨⟩
    | directive =>
      rw [after_leading, List.flatMap_cons, List.append_assoc]
      · exact dropWhile_tail (Piece.tail_source (fun c hc => by rintro ⟨⟩) _)
      · rintro c hc ps' ⟨⟩

theorem leading_text (ps : List Piece) : text ps = leading ps ++ text (after_leading ps) := by
  unfold text
  induction ps with
  | nil => rfl
  | cons p ps ih =>
    cases p with
    | literal c hc =>
      show c :: ps.flatMap Piece.text = _
      rw [ih]
      rfl
    | percent => rfl
    | directive => rfl

theorem leading_args (ps : List Piece) : args ps = args (after_leading ps) := by
  unfold args
  induction ps with
  | nil => rfl
  | cons p ps ih =>
    cases p with
    | literal c hc => exact ih
    | percent => rfl
    | directive => rfl

theorem leading_counted (b : Nat) (ps : List Piece) :
    counted b ps = (leading ps).length + counted (b + (leading ps).length) (after_leading ps) := by
  induction ps generalizing b with
  | nil => rfl
  | cons p ps ih =>
    cases p with
    | literal c hc =>
      simp only [counted, leading, after_leading, List.length_cons, ih (b + 1)]
      rw [show b + 1 + (leading ps).length = b + ((leading ps).length + 1) by omega]
      omega
    | percent => simp only [leading, after_leading, List.length_nil, Nat.zero_add, Nat.add_zero]
    | directive => simp only [leading, after_leading, List.length_nil, Nat.zero_add, Nat.add_zero]

theorem after_leading_suffix (ps : List Piece) : after_leading ps <:+ ps := by
  induction ps with
  | nil => exact List.suffix_refl _
  | cons p ps ih =>
    cases p with
    | literal c hc => exact ih.trans (List.suffix_cons _ _)
    | percent => exact List.suffix_refl _
    | directive => exact List.suffix_refl _

theorem not_startsLiteral_after (ps : List Piece) : ¬ StartsLiteral (after_leading ps) := by
  induction ps with
  | nil => exact id
  | cons p ps ih =>
    cases p with
    | literal c hc => exact ih
    | percent => exact id
    | directive => exact id

section Run

variable {stale : Stale} {s t : Locals (List Byte)} {params : List Arg}

/-- Between two directives. -/
structure Between (s : Locals (List Byte)) (ps : List Piece) (tail : List Byte)
    (params : List Arg) : Prop where
  format : s.format = source ps ++ tail
  params : s.params = args ps ++ params
  rejected : s.rejected_formater = false
  pound : s.pound = false
  length : s.length = 0

/-- A run over pieces, up to what comes after them. -/
structure Prints (stale : Stale) (s t : Locals (List Byte)) (n : Nat) (out : List Byte) : Prop where
  passes : passes putchars stale s.format.length s = passes putchars stale t.format.length t
  written : t.written = s.written + BitVec.ofNat 32 n
  out : t.out = s.out ++ out

theorem Prints.refl (stale : Stale) (s : Locals (List Byte)) : Prints stale s s 0 [] where
  passes := rfl
  written := (BitVec.add_zero _).symm
  out := (List.append_nil _).symm

theorem Prints.trans {u : Locals (List Byte)} {n m : Nat} {l r : List Byte} (h : Prints stale s t n l)
    (h' : Prints stale t u m r) : Prints stale s u (n + m) (l ++ r) where
  passes := h.passes.trans h'.passes
  written := by rw [h'.written, h.written, BitVec.ofNat_add, BitVec.add_assoc]
  out := by rw [h'.out, h.out, List.append_assoc]

/-- The text from a character on, up to the next `%`. -/
theorem printc_text {c : Byte} (hformat : s.format = c :: (source ps ++ tail)) (htail : Tail tail) :
    printc putchars s = .ok { s with
      amount := BitVec.ofNat 32 (1 + (leading ps).length)
      written := s.written + BitVec.ofNat 32 (1 + (leading ps).length)
      format := source (after_leading ps) ++ tail
      out := s.out ++ c :: leading ps } := by
  unfold printc
  rw [hformat]
  dsimp only
  rw [takeWhile_source htail, dropWhile_source htail, List.length_cons, Nat.add_comm 1]
  rfl

theorem Between.no_nul (h : Between s ps tail params) (hnul : 0#8 ∉ tail) : 0#8 ∉ s.format := by
  rw [h.format, List.mem_append, not_or]
  exact ⟨source_no_nul ps, hnul⟩

/-- A pass that prints a block of text. -/
theorem block_pass {c : Byte} (hne : s.format ≠ []) (hnul : 0#8 ∉ s.format)
    (hpass : pass putchars stale s = printc putchars { s with format := c :: (source ps ++ tail) })
    (htail : Tail tail) (hparams : s.params = args ps ++ params) (hrejected : s.rejected_formater = false)
    (hpound : s.pound = false) (hlength : s.length = 0) :
    ∃ t, Prints stale s t (1 + (leading ps).length) (c :: leading ps) ∧
      Between t (after_leading ps) tail params ∧ t.amount = BitVec.ofNat 32
        (1 + (leading ps).length) := by
  rw [printc_text rfl htail] at hpass
  refine ⟨_, ⟨passes_pass hnul hne hpass, rfl, rfl⟩, ⟨rfl, ?_, hrejected, hpound, hlength⟩, rfl⟩
  rw [← leading_args]
  exact hparams

theorem literal_pass {c : Byte} {hc : c ≠ 0#8 ∧ c ≠ ascii '%'}
    (h : Between s (.literal c hc :: ps) tail params)
    (htail : Tail tail) (hnul : 0#8 ∉ tail) :
    ∃ t, Prints stale s t (1 + (leading ps).length) (c :: leading ps) ∧
      Between t (after_leading ps) tail params ∧ t.amount = BitVec.ofNat 32
        (1 + (leading ps).length) := by
  have hformat : s.format = c :: (source ps ++ tail) := h.format
  refine block_pass (by rw [hformat]; exact List.cons_ne_nil _ _)
    (h.no_nul hnul) ?_ htail h.params h.rejected
    h.pound h.length
  unfold pass
  rw [hformat]
  dsimp only
  rw [if_pos hc.2, ← hformat]

theorem percent_pass (h : Between s (.percent :: ps) tail params) (htail : Tail tail)
    (hnul : 0#8 ∉ tail) :
    ∃ t, Prints stale s t (1 + (leading ps).length) (ascii '%' :: leading ps) ∧
      Between t (after_leading ps) tail params ∧ t.amount = BitVec.ofNat 32
        (1 + (leading ps).length) := by
  have hformat : s.format = ascii '%' :: ascii '%' :: (source ps ++ tail) := h.format
  refine block_pass (by rw [hformat]; exact List.cons_ne_nil _ _)
    (h.no_nul hnul) ?_ htail h.params h.rejected
    h.pound h.length
  unfold pass
  rw [hformat]
  dsimp only
  rw [if_neg (not_not.mpr rfl), List.head?_cons, if_pos rfl]

/-- A pass over a directive goes on in `specifier`. -/
theorem Between.pass_directive {pound long : Bool} {conv : Conv}
    (h : Between s (.directive pound long conv :: ps) tail params) :
    ∃ format_start, pass putchars stale s = specifier putchars stale format_start
      { s with pound, length := long.toNat, format := conv.letter :: (source ps ++ tail) } := by
  have hformat : s.format = directive pound long.toNat conv.letter ++ (source ps ++ tail) := by
    rw [h.format, source, List.flatMap_cons, List.append_assoc]
    rfl
  refine ⟨s.format.tail, ?_⟩
  rw [Libc.pass_directive conv.letter_spec.1 pound long.toNat hformat h.rejected, h.pound, h.length,
    Bool.false_or, Nat.zero_add]

theorem Between.ne_nil {pound long : Bool} {conv : Conv}
    (h : Between s (.directive pound long conv :: ps) tail params) : s.format ≠ [] := by
  rw [h.format]
  exact List.cons_ne_nil _ _

theorem directive_pass {pound long : Bool} {conv : Conv} {b : Nat}
    (h : Between s (.directive pound long conv :: ps) tail params) (hok : conv.Ok long)
    (hamount : s.amount = BitVec.ofNat 32 b) (hnul : 0#8 ∉ tail) :
    ∃ t, Prints stale s t (b + conv.counted) (Piece.zero_x pound conv ++ conv.text) ∧
      Between t ps tail params ∧ t.amount = 0#32 := by
  obtain ⟨format_start, hpass⟩ := h.pass_directive
  obtain ⟨buffer, hspecifier⟩ := @specifier_conv _ putchars stale
    { s with pound, length := long.toNat, format := conv.letter :: (source ps ++ tail) }
    _ conv long hok _ rfl h.params rfl format_start
  rw [hspecifier] at hpass
  refine ⟨_, ⟨passes_pass (h.no_nul hnul) h.ne_nil hpass, ?_, ?_⟩, ⟨rfl, rfl, h.rejected, rfl, rfl⟩, rfl⟩
  · show s.written + (s.amount + BitVec.ofNat 32 conv.counted) = _
    rw [hamount, BitVec.ofNat_add]
  · show putchars conv.text (if pound && conv.hex then putchars _ s.out else s.out) = _
    unfold putchars Piece.zero_x
    split
    · exact List.append_assoc ..
    · rfl

/-- What a byte and the block of literals behind it count, and what is behind the block. -/
theorem block_counted (ps : List Piece) : 1 + counted 1 ps =
    1 + (leading ps).length + counted (1 + (leading ps).length) (after_leading ps) := by
  rw [leading_counted 1 ps, Nat.add_assoc]

theorem block_text (c : Byte) (ps : List Piece) :
    c :: text ps = c :: leading ps ++ text (after_leading ps) := by
  rw [List.cons_append, ← leading_text]

/-- **A run over pieces that the code can print.** -/
theorem prints_pieces (htail : Tail tail) (hnul : 0#8 ∉ tail) (hok : ∀ p ∈ ps, p.Ok)
    (h : Between s ps tail params) (hblock : StartsLiteral ps → b = 0)
    (hamount : StartsDirective ps → s.amount = BitVec.ofNat 32 b) :
    ∃ t, Prints stale s t (counted b ps) (text ps) ∧ Between t [] tail params := by
  induction hn : ps.length using Nat.strong_induction_on generalizing ps s b with
  | _ n ih =>
    have hafter (ps : List Piece) : (after_leading ps).length ≤ ps.length :=
      (after_leading_suffix ps).length_le
    cases ps with
    | nil => exact ⟨s, Prints.refl stale s, h⟩
    | cons p ps =>
      obtain ⟨hp, hrest⟩ := List.forall_mem_cons.mp hok
      have hok' : ∀ p ∈ after_leading ps, p.Ok := fun p hp =>
        hrest p ((after_leading_suffix ps).subset hp)
      have hlen := hafter ps
      rw [List.length_cons] at hn
      have hblock' : StartsLiteral (after_leading ps) → 1 + (leading ps).length = 0 :=
        fun hs => absurd hs (not_startsLiteral_after ps)
      cases p with
      | literal c hc =>
        obtain ⟨t, hprints, hbetween, hamount'⟩ := literal_pass h htail hnul
        obtain ⟨u, hprints', hbetween'⟩ := ih _ (by omega) hok' hbetween hblock' (fun _ => hamount') rfl
        have hcounted : counted b (.literal c hc :: ps) = 1 + counted 1 ps := by
          rw [hblock trivial]
          rfl
        have htext : text (.literal c hc :: ps) = c :: text ps := rfl
        rw [hcounted, htext, block_counted, block_text]
        exact ⟨u, hprints.trans hprints', hbetween'⟩
      | percent =>
        obtain ⟨t, hprints, hbetween, hamount'⟩ := percent_pass h htail hnul
        obtain ⟨u, hprints', hbetween'⟩ := ih _ (by omega) hok' hbetween hblock' (fun _ => hamount') rfl
        have hcounted : counted b (.percent :: ps) = 1 + counted 1 ps := rfl
        have htext : text (.percent :: ps) = ascii '%' :: text ps := rfl
        rw [hcounted, htext, block_counted, block_text]
        exact ⟨u, hprints.trans hprints', hbetween'⟩
      | directive pound long conv =>
        obtain ⟨t, hprints, hbetween, hamount'⟩ := directive_pass h hp (hamount trivial) hnul
        obtain ⟨u, hprints', hbetween'⟩ := ih ps.length (by omega) hrest hbetween (fun _ => rfl)
          (fun _ => hamount') rfl
        exact ⟨u, hprints.trans hprints', hbetween'⟩

theorem entry_between (stale : Stale) (ps : List Piece) (rest : List Arg) :
    Between (entry stale (format ps) (args ps ++ rest) []) ps [] rest where
  format := (List.append_nil _).symm
  params := rfl
  rejected := rfl
  pound := rfl
  length := rfl

/-- The outcome for pieces that the code can print. -/
theorem vprintf_ok (rest : List Arg) (hok : ∀ p ∈ ps, p.Ok) (hblock : StartsLiteral ps → b = 0)
    (hamount : StartsDirective ps → stale.amount = BitVec.ofNat 32 b) :
    vprintf stale (format ps) (args ps ++ rest) = .ok (BitVec.ofNat 32 (counted b ps), text ps) := by
  obtain ⟨t, hprints, hbetween⟩ :=
    prints_pieces (.inl rfl) List.not_mem_nil hok (entry_between stale ps rest) hblock hamount
  have hnil : t.format = [] := hbetween.format
  have hloop : format_loop putchars stale (format ps) (args ps ++ rest) [] = .ok t :=
    hprints.passes.trans (passes_nil hnil _)
  rw [vprintf, hloop]
  show Except.ok (t.written, t.out) = _
  rw [hprints.written, hprints.out]
  simp only [entry, BitVec.zero_add, List.nil_append]

/-- A directive that the code cannot print, after pieces that it can. -/
theorem vprintf_reaches (stale : Stale) {good : List Piece} (post : List Piece) {bad : Piece}
    (rest : List Arg)
    (hgood : ∀ p ∈ good, p.Ok)
    (hamount : StartsDirective good → stale.amount = BitVec.ofNat 32 b)
    (hblock : StartsLiteral good → b = 0)
    (hbad : ¬ bad.Ok) :
    ∃ t, Between t (bad :: post) [] rest ∧ t.out = text good ∧
      format_loop putchars stale (format (good ++ bad :: post)) (args (good ++ bad :: post) ++ rest) [] =
        passes putchars stale t.format.length t := by
  have htail : Tail (source (bad :: post)) := by
    refine Piece.tail_source (fun c hc hliteral => hbad ?_) _
    rw [hliteral]
    trivial
  have hentry := entry_between stale (good ++ bad :: post) rest
  have hbetween : Between (entry stale (format (good ++ bad :: post)) (args (good ++ bad :: post) ++ rest) [])
      good (source (bad :: post)) (args (bad :: post) ++ rest) :=
    ⟨List.flatMap_append, by rw [hentry.params, args, List.flatMap_append, List.append_assoc]; rfl, rfl, rfl, rfl⟩
  obtain ⟨t, hprints, h⟩ := prints_pieces htail (source_no_nul _) hgood hbetween hblock hamount
  exact ⟨t, ⟨h.format.trans (List.append_nil _).symm, h.params, h.rejected, h.pound, h.length⟩, hprints.out,
    hprints.passes⟩

/-! ## Directives that the code cannot print -/

theorem passes_INT_MIN {pound long : Bool} {conv : Conv} {rest : List Arg}
    (hconv : conv = .d INT_MIN ∨ conv = .i INT_MIN)
    (h : Between s (.directive pound long conv :: ps) [] rest) :
    passes putchars stale s.format.length s = .error .wild := by
  obtain ⟨format_start, hpass⟩ := h.pass_directive
  obtain ⟨len, hlen⟩ : ∃ k, s.format.length = k + 1 :=
    ⟨s.format.length - 1, by have := List.length_pos_iff.mpr h.ne_nil; omega⟩
  have hlong : long.toNat ≠ 2 := by cases long <;> decide
  rw [hlen, passes_succ h.ne_nil, hpass]
  obtain rfl | rfl := hconv
  · rw [specifier_d (.inl rfl), signed_wild]
    · rfl
    · exact h.params
    · exact hlong
  · rw [specifier_d (.inr rfl), signed_wild]
    · rfl
    · exact h.params
    · exact hlong

def Conv.lower : Conv → Bool
  | .x _ => true
  | .c _ | .s _ | .d _ | .i _ | .u _ | .X _ => false

/-- Without an `l` a hexadecimal directive prints what was in `number` before. -/
theorem passes_bare_hex {pound : Bool} {conv : Conv} {rest : List Arg} {number : BitVec 32}
    (hhex : conv.hex = true) (h : Between s (.directive pound false conv :: ps) [] rest)
    (hnumber : ∀ k, stale.number k = number) (hrun : passes putchars stale s.format.length s = .ok t) :
    s.out ++ (Piece.zero_x pound conv ++ hex_text conv.lower number.toNat) <+: t.out := by
  obtain ⟨format_start, hpass⟩ := h.pass_directive
  have hstale (letter : Byte) : hex_number stale
      { s with pound, length := 0, format := letter :: (source ps ++ []) } = .ok (number, s.params) := by
    unfold hex_number
    rw [if_neg (show ¬ (0 = 1 ∨ 0 = 2) by decide), hnumber]
  have hspecifier : ∃ u, pass putchars stale s = .ok u ∧
      u.out = s.out ++ (Piece.zero_x pound conv ++ hex_text conv.lower number.toNat) := by
    have happend (l : List Byte) : putchars l (if pound then putchars [ascii '0', ascii 'x'] s.out else s.out) =
        s.out ++ ((if pound then [ascii '0', ascii 'x'] else []) ++ l) := by
      unfold putchars
      cases pound with
      | true => exact List.append_assoc ..
      | false => rfl
    rw [hpass, Piece.zero_x, hhex, Bool.and_true]
    cases conv with
    | x v =>
      rw [specifier_x rfl]
      obtain ⟨buffer, hspec⟩ := hex_spec true (hstale _)
      exact ⟨_, hspec, happend _⟩
    | X v =>
      rw [specifier_X rfl]
      obtain ⟨buffer, hspec⟩ := hex_spec false (hstale _)
      exact ⟨_, hspec, happend _⟩
    | c v => cases hhex
    | s str => cases hhex
    | d v => cases hhex
    | i v => cases hhex
    | u v => cases hhex
  obtain ⟨u, hu, hout⟩ := hspecifier
  have hnul := h.no_nul List.not_mem_nil
  rw [passes_pass hnul h.ne_nil hu] at hrun
  have hprogress := pass_progress hnul h.ne_nil hu
  refine passes_keeps (fun data out _ hprefix => ?_) (hprogress.no_nul hnul)
    (hout ▸ List.prefix_refl _) hrun
  exact hprefix.trans (List.prefix_append _ _)

end Run

/-- The first piece that the code cannot print. -/
theorem exists_bad (h : ¬ ∀ p ∈ ps, p.Ok) :
    ∃ good bad post, ps = good ++ bad :: post ∧ (∀ p ∈ good, p.Ok) ∧ ¬ bad.Ok := by
  induction ps with
  | nil => exact absurd (fun p hp => absurd hp List.not_mem_nil) h
  | cons p ps ih =>
    by_cases hp : p.Ok
    · obtain ⟨good, bad, post, rfl, hgood, hbad⟩ := ih fun hps => h (List.forall_mem_cons.mpr ⟨hp, hps⟩)
      exact ⟨p :: good, bad, post, rfl, List.forall_mem_cons.mpr ⟨hp, hgood⟩, hbad⟩
    · exact ⟨[], p, ps, rfl, fun p hp => absurd hp List.not_mem_nil, hp⟩

theorem Piece.bad_cases {p : Piece} (h : ¬ p.Ok) : ∃ pound long conv, p = .directive pound long conv ∧
    (conv = .d INT_MIN ∨ conv = .i INT_MIN ∨ conv.hex = true ∧ long = false) := by
  cases p with
  | literal c hc => exact absurd trivial h
  | percent => exact absurd trivial h
  | directive pound long conv =>
    refine ⟨pound, long, conv, rfl, ?_⟩
    cases conv with
    | c v => exact absurd trivial h
    | s str => exact absurd trivial h
    | u v => exact absurd trivial h
    | d v => exact .inl (congrArg _ (not_not.mp h))
    | i v => exact .inr (.inl (congrArg _ (not_not.mp h)))
    | x v => exact .inr (.inr ⟨rfl, Bool.eq_false_iff.mpr h⟩)
    | X v => exact .inr (.inr ⟨rfl, Bool.eq_false_iff.mpr h⟩)

theorem vprintf_out {stale : Stale} {f : CString} {params : List Arg} {n : BitVec 32} {out : List Byte}
    (h : vprintf stale f params = .ok (n, out)) :
    ∃ t, format_loop putchars stale f params [] = .ok t ∧ t.written = n ∧ t.out = out := by
  obtain ⟨t, hloop, h⟩ := Lib.bind_eq_ok.mp h
  cases h
  exact ⟨t, hloop, rfl, rfl⟩

/-- With other values left in the locals the code does not print the rendering of a bad piece. -/
theorem ok_of_prints (rest : List Arg)
    (h : ∀ stale, ∃ n, vprintf stale (format ps) (args ps ++ rest) = .ok (n, text ps)) : ∀ p ∈ ps,
    p.Ok := by
  by_contra hps
  obtain ⟨good, bad, post, rfl, hgood, hbad⟩ := exists_bad hps
  have hrun (number : BitVec 32) : ∃ s t, Between s (bad :: post) [] rest ∧ s.out = text good ∧
      passes putchars ⟨0#32, fun _ => number, fun _ => 0#8⟩ s.format.length s = .ok t ∧
      t.out = text (good ++ bad :: post) := by
    obtain ⟨n, hn⟩ := h ⟨0#32, fun _ => number, fun _ => 0#8⟩
    obtain ⟨t, hloop, -, hout⟩ := vprintf_out hn
    have hamount : StartsDirective good → (0#32 : BitVec 32) = BitVec.ofNat 32 0 := fun _ => rfl
    obtain ⟨s, hbetween, hgoods, hpasses⟩ := vprintf_reaches ⟨0#32, fun _ => number, fun _ => 0#8⟩
      post rest hgood hamount (fun _ => rfl) hbad
    exact ⟨s, t, hbetween, hgoods, hpasses.symm.trans hloop, hout⟩
  obtain ⟨pound, long, conv, rfl, hint | hint | ⟨hhex, rfl⟩⟩ := Piece.bad_cases hbad
  · obtain ⟨s, t, hbetween, -, hpasses, -⟩ := hrun 0#32
    rw [passes_INT_MIN (.inl hint) hbetween] at hpasses
    cases hpasses
  · obtain ⟨s, t, hbetween, -, hpasses, -⟩ := hrun 0#32
    rw [passes_INT_MIN (.inr hint) hbetween] at hpasses
    cases hpasses
  · -- two values of `number` print different digits at the same place
    obtain ⟨s, t, hbetween, hgoods, hpasses, hout⟩ := hrun 1#32
    obtain ⟨s', t', hbetween', hgoods', hpasses', hout'⟩ := hrun 2#32
    have hone := passes_bare_hex hhex hbetween (fun _ => rfl) hpasses
    have htwo := passes_bare_hex hhex hbetween' (fun _ => rfl) hpasses'
    rw [hgoods, hout] at hone
    rw [hgoods', hout'] at htwo
    have hlen (lower : Bool) : (hex_text lower 1).length = (hex_text lower 2).length :=
      by cases lower <;> rfl
    have hne (lower : Bool) : hex_text lower 1 ≠ hex_text lower 2 := by cases lower <;> decide
    have heq := List.IsPrefix.eq_of_length (List.prefix_of_prefix_length_le hone htwo (by simp [hlen]))
      (by simp [hlen])
    exact hne _ (List.append_cancel_left (List.append_cancel_left heq))

/-- **Formats.** Whatever is left in the locals, `vprintf` prints the rendering of a format and
returns its length if and only if every hexadecimal directive has an `l`, no signed one prints the
least `int`, the format does not start with a directive, the rendering is shorter than 2^31, and the
text that is counted again is as long as what is not counted. -/
theorem vprintf_renders_iff (ps : List Piece) (rest : List Arg) :
    (∀ stale, ∃ n, vprintf stale (format ps) (args ps ++ rest) = .ok (n, text ps) ∧
      n.toInt = (text ps).length) ↔
    (∀ p ∈ ps, p.Ok) ∧ ¬ StartsDirective ps ∧ (text ps).length < 2 ^ 31 ∧
      again 0 ps % 2 ^ 32 = uncounted ps % 2 ^ 32 := by
  have hcount := counted_eq 0 ps
  constructor
  · intro h
    have hok : ∀ p ∈ ps, p.Ok := ok_of_prints rest fun stale => (h stale).imp fun n hn => hn.1
    have hreturns (b : Nat) (hblock : StartsLiteral ps → b = 0) :
        (BitVec.ofNat 32 (counted b ps)).toInt = (text ps).length := by
      obtain ⟨n, hn, hlen⟩ := h ⟨BitVec.ofNat 32 b, fun _ => 0#32, fun _ => 0#8⟩
      rw [vprintf_ok rest hok hblock fun _ => rfl] at hn
      cases hn
      exact hlen
    have hzero := hreturns 0 fun _ => rfl
    rw [BitVec.toInt_ofNat', Int.bmod_def] at hzero
    refine ⟨hok, fun hstarts => ?_, by omega, by omega⟩
    cases ps with
    | nil => exact hstarts
    | cons p ps =>
      cases p with
      | literal c hc => exact hstarts
      | percent => exact hstarts
      | directive pound long conv =>
        have hone := hreturns 1 fun hs => absurd hs id
        rw [BitVec.toInt_ofNat', Int.bmod_def, counted] at hone
        rw [counted] at hzero
        omega
  · rintro ⟨hok, hstarts, hlen, hagain⟩ stale
    refine ⟨_, vprintf_ok rest hok (fun _ => rfl) fun hs => absurd hs hstarts, ?_⟩
    rw [BitVec.toInt_ofNat', Int.bmod_def]
    omega

/-- The text before the directive is counted twice. -/
theorem vprintf_a5 : ¬ ∃ n,
    vprintf ⟨0#32, fun _ => 0#32, fun _ => 0#8⟩
      (format [.literal (ascii 'a') (by decide), .directive false false (.d 5#32)]) [.int 5#32] =
        .ok (n, [ascii 'a', ascii '5']) ∧ n.toInt = 2 := by
  rintro ⟨n, hn, hlen⟩
  have hcount : n = 3#32 := (congrArg Prod.fst (Except.ok.inj hn)).symm
  revert hlen
  rw [hcount]
  decide

end Condor.Libc
