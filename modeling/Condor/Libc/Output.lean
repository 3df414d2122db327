import Condor.Libc.Vprintf

/-!
# Where the output goes

The parser hands what it prints to `print` and never looks at it, so two outputs
that `print` keeps in step stay in step over a whole format (`format_loop_map`).
`vprintf` appends to a list; what any other output does with the text of a format
follows from that (`format_loop_text`).
-/

namespace Condor.Libc

variable {σ τ : Type} {print : List Byte → σ → σ} {print' : List Byte → τ → τ} {stale : Stale}

/-- The same locals with another output. -/
def Locals.map (f : σ → τ) (s : Locals σ) : Locals τ :=
  ⟨s.format, s.params, s.amount, s.rejected_formater, s.pound, s.length, s.written, s.buffer, f s.out⟩

theorem flags_map (f : σ → τ) (s : Locals σ) : flags (s.map f) = (flags s).map f := by
  unfold flags
  by_cases hat : s.at '#'
  · rw [if_pos hat, if_pos (show (s.map f).at '#' from hat)]
    rfl
  · rw [if_neg hat, if_neg (show ¬ (s.map f).at '#' from hat)]
    rfl

section Map

variable {f : σ → τ} (hprint : ∀ data out, f (print data out) = print' data (f out)) {s : Locals σ}
include hprint

theorem printc_map : printc print' (s.map f) = Locals.map f <$> printc print s := by
  unfold printc
  rw [show (s.map f).format = s.format from rfl]
  cases s.format with
  | nil => rfl
  | cons c format =>
    simp only [Locals.map, ← hprint]
    rfl

theorem char_map : char_directive print' (s.map f) = Locals.map f <$> char_directive print s := by
  unfold char_directive
  show va_int s.params >>= _ = _
  cases va_int s.params with
  | error e => rfl
  | ok a =>
    show Except.ok _ = Except.ok _
    simp only [Locals.map, ← hprint]

theorem string_map : string_directive print' (s.map f) = Locals.map f <$> string_directive print s := by
  unfold string_directive
  show va_str s.params >>= _ = _
  cases va_str s.params with
  | error e => rfl
  | ok a =>
    show Except.ok _ = Except.ok _
    simp only [Locals.map, ← hprint]

theorem print_buffer_map (buffer : Buffer) :
    print_buffer print' (s.map f) buffer = (print_buffer print s buffer).map f := by
  simp only [print_buffer, Locals.map, hprint]

theorem signed_map : signed_directive print' (s.map f) = Locals.map f <$> signed_directive print s := by
  unfold signed_directive
  show signed_number s >>= _ = _
  cases signed_number s with
  | error e => rfl
  | ok a =>
    show itoa a.1 s.buffer 10 >>= _ = Locals.map f <$> (itoa a.1 s.buffer 10 >>= _)
    cases itoa a.1 s.buffer 10 with
    | error e => rfl
    | ok buffer => exact congrArg Except.ok (print_buffer_map (s := { s with params := a.2 }) hprint buffer)

theorem unsigned_map : unsigned_directive print' (s.map f) = Locals.map f <$> unsigned_directive print s := by
  unfold unsigned_directive
  show va_int s.params >>= _ = _
  cases va_int s.params with
  | error e => rfl
  | ok a =>
    show ultoa a.1 s.buffer 10 >>= _ = Locals.map f <$> (ultoa a.1 s.buffer 10 >>= _)
    cases ultoa a.1 s.buffer 10 with
    | error e => rfl
    | ok buffer => exact congrArg Except.ok (print_buffer_map (s := { s with params := a.2 }) hprint buffer)

theorem hex_map (lower : Bool) :
    hex_directive print' stale lower (s.map f) = Locals.map f <$> hex_directive print stale lower s := by
  unfold hex_directive
  show hex_number stale s >>= _ = _
  cases hex_number stale s with
  | error e => rfl
  | ok a =>
    show ultoa a.1 s.buffer 16 >>= _ = Locals.map f <$> (ultoa a.1 s.buffer 16 >>= _)
    cases ultoa a.1 s.buffer 16 with
    | error e => rfl
    | ok upper =>
      show hex_case lower upper >>= _ = Locals.map f <$> (hex_case lower upper >>= _)
      cases hex_case lower upper with
      | error e => rfl
      | ok buffer =>
        show Except.ok _ = Except.ok _
        simp only [Locals.map, ← hprint, ← apply_ite f]

theorem specifier_map (format_start : List Byte) :
    specifier print' stale format_start (s.map f) = Locals.map f <$> specifier print stale format_start s := by
  have hfinish {x : Except Stop (Locals σ)} :
      Locals.finish <$> Locals.map f <$> x = Locals.map f <$> Locals.finish <$> x := by
    cases x <;> rfl
  unfold specifier
  rw [char_map hprint, string_map hprint, signed_map hprint, unsigned_map hprint, hex_map hprint, hex_map hprint,
    apply_ite (Locals.map f <$> ·)]
  simp only [hfinish, apply_ite (Locals.map f <$> ·)]
  rw [← printc_map hprint]
  rfl

theorem pass_map : pass print' stale (s.map f) = Locals.map f <$> pass print stale s := by
  unfold pass
  rw [show (s.map f).format = s.format from rfl]
  cases s.format with
  | nil => rfl
  | cons c format =>
    simp only [apply_ite (Locals.map f <$> ·), ← printc_map hprint, ← specifier_map hprint, ← flags_map]
    rfl

theorem passes_map (fuel : Nat) :
    passes print' stale fuel (s.map f) = Locals.map f <$> passes print stale fuel s := by
  induction fuel generalizing s with
  | zero =>
    unfold passes
    rw [apply_ite (Locals.map f <$> ·)]
    rfl
  | succ fuel ih =>
    unfold passes
    rw [apply_ite (Locals.map f <$> ·), pass_map hprint]
    cases pass print stale s with
    | error e => rfl
    | ok t =>
      show ite _ _ (passes print' stale fuel (t.map f)) = _
      rw [ih]
      rfl

/-- **Two outputs in step.** -/
theorem format_loop_map (format : CString) (params : List Arg) (out : σ) :
    format_loop print' stale format params (f out) =
      Locals.map f <$> format_loop print stale format params out :=
  passes_map (s := entry stale format params out) hprint format.bytes.length

end Map

/-- An output that takes bytes one at a time gets the text of the format. -/
theorem format_loop_text {ps : List Piece} (rest : List Arg) (hok : ∀ p ∈ ps, p.Ok) (hstarts : ¬ StartsDirective ps)
    (putchar : σ → Byte → σ) (out : σ) :
    ∃ s, format_loop (fun data out => data.foldl putchar out) stale (format ps) (args ps ++ rest) out = .ok s ∧
      s.out = (text ps).foldl putchar out := by
  have hprint (data l : List Byte) :
      (putchars data l).foldl putchar out = data.foldl putchar (l.foldl putchar out) := List.foldl_append
  obtain ⟨t, hloop, -, hout⟩ :=
    vprintf_out (@vprintf_ok ps 0 stale rest hok (fun _ => rfl) fun hs => absurd hs hstarts)
  refine ⟨t.map fun l => l.foldl putchar out, ?_, by rw [← hout]; rfl⟩
  have hmap := @format_loop_map _ _ putchars (fun data out => data.foldl putchar out) stale
    (fun l => l.foldl putchar out) hprint (format ps) (args ps ++ rest) []
  rw [hloop] at hmap
  exact hmap

end Condor.Libc
