import Condor.Libc.Vprintf

/-!
# What `vsprintf` writes

`print` of `vsprintf` starts at the offset instead of the start of its data, so the
first string it prints is the only one that gets to `dest` unchanged, and the NUL
at the end is written only if nothing was printed before it. `vsprintf` writes what
`vprintf` prints, and the NUL, exactly for the formats that print nothing
(`vsprintf_matches_iff`).
-/

namespace Condor.Libc

/-- `dest` with a string and its NUL written to it. -/
def delivered (dest : Buffer) (out : List Byte) : Buffer :=
  fun i => if i = out.length then 0#8 else out.getD i (dest i)

/-- For every content of `dest`, the count of `vprintf` and the string it prints. -/
def Matches (stale : Stale) (format : CString) (params : List Arg) (n : BitVec 32)
    (out : List Byte) : Prop :=
  ∀ dest, vsprintf stale dest format params = .ok (n, delivered dest out)

/-- A format of `%s` directives with empty strings. -/
inductive Silent : List Byte → List Arg → Prop where
  | nil (params : List Arg) : Silent [] params
  | directive (pound : Bool) (n : Nat) {str : CString} {rest : List Byte} {params : List Arg}
      (hstr : str.bytes = []) (h : Silent rest params) :
      Silent (directive pound n (ascii 's') ++ rest) (.str str :: params)

section Runs

variable {σ : Type} {print : List Byte → σ → σ} {stale : Stale} {s t u : Locals σ}

/-- Between two directives, none of which was rejected. -/
structure Fresh (s : Locals σ) : Prop where
  rejected : s.rejected_formater = false
  pound : s.pound = false
  length : s.length = 0

/-- A pass over `%s`. -/
theorem pass_string {pound : Bool} {n : Nat} {str : CString} {rest : List Byte} {params : List Arg}
    (h : Fresh s)
    (hformat : s.format = directive pound n (ascii 's') ++ rest)
    (hparams : s.params = .str str :: params) :
    pass print stale s = .ok (after_directive s (print str.bytes s.out) 0 rest params s.buffer) := by
  rw [pass_directive (by unfold Letter; decide) pound n hformat h.rejected, specifier_s rfl]
  exact string_spec hparams

theorem Silent.no_nul {format : List Byte} {params : List Arg} (h : Silent format params) :
    0#8 ∉ format := by
  induction h with
  | nil => exact List.not_mem_nil
  | directive pound n hstr h ih =>
    intro hmem
    simp only [Libc.directive, List.mem_cons, List.mem_append, List.mem_replicate, List.not_mem_nil,
      or_false] at hmem
    obtain (h | (h | h) | h) | h := hmem
    · exact absurd h (by decide)
    · revert h
      cases pound <;> decide
    · exact absurd h.2 (by decide)
    · exact absurd h (by decide)
    · exact ih h

/-- A silent format prints nothing, and counts what was in `amount`. -/
theorem passes_silent (hprint : ∀ out, print [] out = out) {format : List Byte} {params : List Arg}
    (hsilent : Silent format params) (hformat : s.format = format) (hparams : s.params = params)
    (h : Fresh s) :
    ∃ t, passes print stale s.format.length s = .ok t ∧ t.out = s.out ∧
      t.written = s.written + if format = [] then 0#32 else s.amount := by
  induction hsilent generalizing s with
  | nil params => exact ⟨s, passes_nil hformat _, rfl, (BitVec.add_zero _).symm⟩
  | directive pound n hstr hsilent ih =>
    rename_i str rest params
    have hne : s.format ≠ [] := by
      rw [hformat]
      exact List.cons_ne_nil _ _
    have hnul : 0#8 ∉ s.format := hformat ▸ (Silent.directive pound n hstr hsilent).no_nul
    have hpass : pass print stale s = .ok (after_directive s s.out 0 rest params s.buffer) := by
      rw [pass_string h hformat hparams, hstr, hprint]
    rw [passes_pass hnul hne hpass]
    obtain ⟨t, ht, hout, hwritten⟩ :=
      ih (s := after_directive s s.out 0 rest params s.buffer) rfl rfl ⟨h.rejected, rfl, rfl⟩
    refine ⟨t, ht, hout, ?_⟩
    rw [hwritten, if_neg (show directive pound n (ascii 's') ++ rest ≠ [] from List.cons_ne_nil _ _)]
    show s.written + (s.amount + 0#32) + (if rest = [] then 0#32 else 0#32) = _
    rw [ite_self, BitVec.add_zero, BitVec.add_zero]

/-- The flags that were skipped. -/
theorem flags_skipped (s : Locals σ) : ∃ (pound : Bool) (n : Nat),
    s.format = (if pound then [ascii '#'] else []) ++ List.replicate n (ascii 'l') ++
      (flags s).format := by
  have hskip (l : List Byte) :
      l = List.replicate (l.takeWhile (· = ascii 'l')).length (ascii 'l') ++ l.dropWhile
        (· = ascii 'l') := by
    have hall : ∀ c ∈ l.takeWhile (· = ascii 'l'), c = ascii 'l' := fun c hc =>
      of_decide_eq_true (List.all_eq_true.mp List.all_takeWhile c hc)
    rw [← List.eq_replicate_of_mem hall, List.takeWhile_append_dropWhile]
  by_cases hat : s.at '#'
  · refine ⟨true, (s.format.tail.takeWhile (· = ascii 'l')).length, ?_⟩
    have hcons : s.format = ascii '#' :: s.format.tail := by
      rw [Locals.at] at hat
      cases hformat : s.format with
      | nil => rw [hformat] at hat; cases hat
      | cons c l =>
        rw [hformat] at hat
        rw [Option.some.inj hat]
        rfl
    unfold flags
    rw [if_pos hat, List.append_assoc]
    exact hcons.trans (congrArg _ (hskip s.format.tail))
  · refine ⟨false, (s.format.takeWhile (· = ascii 'l')).length, ?_⟩
    unfold flags
    rw [if_neg hat]
    exact hskip s.format

end Runs

section Printing

variable {stale : Stale} {s t u : Locals (List Byte)} {b : Buffer} {v : BitVec 32}

theorem string_itoa {str : Buffer} (h : itoa v str 10 = .ok b) : string b ≠ [] := by
  by_cases hv : v = INT_MIN
  · rw [hv, itoa_INT_MIN] at h
    cases h
  · obtain ⟨b', hitoa, hstarts⟩ := itoa_spec hv str
    cases hitoa.symm.trans h
    rw [string_signed hstarts, signed, decimal_eq]
    split
    · exact List.cons_ne_nil _ _
    · exact List.ne_nil_of_length_pos numeral_length_pos

theorem string_ultoa {str : Buffer} {base : Nat} (hbase : 1 < base) (h16 : base ≤ 16)
    (h : ultoa v str base = .ok b) : Starts b (numeral base v.toNat ++ [0#8]) ∧ string b ≠ [] := by
  obtain ⟨b', hultoa, hstarts⟩ := ultoa_spec hbase h16 v str
  cases hultoa.symm.trans h
  rw [string_numeral hbase h16 v.isLt hstarts]
  exact ⟨hstarts, List.ne_nil_of_length_pos numeral_length_pos⟩

theorem printc_prints (h : printc putchars s = .ok u) : u.out ≠ [] := by
  unfold printc at h
  split at h
  · cases h
  · cases h
    exact List.append_ne_nil_of_right_ne_nil _ (List.cons_ne_nil _ _)

theorem char_prints (h : char_directive putchars s = .ok u) : u.out ≠ [] := by
  obtain ⟨⟨c, params⟩, -, h⟩ := Lib.bind_eq_ok.mp h
  cases h
  exact List.append_ne_nil_of_right_ne_nil _ (List.cons_ne_nil _ _)

theorem signed_prints (h : signed_directive putchars s = .ok u) : u.out ≠ [] := by
  obtain ⟨⟨number, params⟩, -, h⟩ := Lib.bind_eq_ok.mp h
  obtain ⟨buffer, hitoa, h⟩ := Lib.bind_eq_ok.mp h
  cases h
  exact List.append_ne_nil_of_right_ne_nil _ (string_itoa hitoa)

theorem unsigned_prints (h : unsigned_directive putchars s = .ok u) : u.out ≠ [] := by
  obtain ⟨⟨number, params⟩, -, h⟩ := Lib.bind_eq_ok.mp h
  obtain ⟨buffer, hultoa, h⟩ := Lib.bind_eq_ok.mp h
  cases h
  exact List.append_ne_nil_of_right_ne_nil _ (string_ultoa (by decide) (by decide) hultoa).2

theorem hex_prints {lower : Bool} (h : hex_directive putchars stale lower s = .ok u) : u.out ≠ [] := by
  obtain ⟨⟨number, params⟩, -, h⟩ := Lib.bind_eq_ok.mp h
  obtain ⟨buffer, hultoa, h⟩ := Lib.bind_eq_ok.mp h
  obtain ⟨buffer', hcase, h⟩ := Lib.bind_eq_ok.mp h
  cases h
  have hstarts := (string_ultoa (by decide) (by decide) hultoa).1
  obtain ⟨lowered, hlowered, hstring⟩ := hex_case_spec lower number.isLt hstarts
  cases hlowered.symm.trans hcase
  refine List.append_ne_nil_of_right_ne_nil _ (List.ne_nil_of_length_pos ?_)
  rw [hstring, hex_text_length]
  exact numeral_length_pos

/-- Only `%s` prints nothing. -/
theorem specifier_silent {format_start : List Byte} (h : specifier putchars stale format_start s = .ok u)
    (hu : u.out = []) :
    s.at 's' ∧ ∃ str, s.params = .str str :: u.params ∧ str.bytes = [] ∧ u.format = s.format.tail ∧
      u.rejected_formater = s.rejected_formater ∧ u.pound = false ∧ u.length = 0 := by
  have hprints {x : Except Stop (Locals (List Byte))} (hx : Locals.finish <$> x = .ok u)
      (hout : ∀ t, x = .ok t → t.out ≠ []) : False := by
    cases x with
    | error e => cases hx
    | ok t => cases hx; exact hout t rfl hu
  unfold specifier at h
  split at h
  · exact (hprints h fun t => char_prints).elim
  split at h
  · rename_i hat
    refine ⟨hat, ?_⟩
    cases hparams : s.params with
    | nil =>
      rw [string_directive, hparams] at h
      cases h
    | cons a params =>
      cases a with
      | int v =>
        rw [string_directive, hparams] at h
        cases h
      | int64 v =>
        rw [string_directive, hparams] at h
        cases h
      | str str =>
        rw [string_spec hparams] at h
        cases h
        exact ⟨str, rfl, (List.append_eq_nil_iff.mp hu).2, rfl, rfl, rfl, rfl⟩
  split at h
  · exact (hprints h fun t => signed_prints).elim
  split at h
  · exact (hprints h fun t => unsigned_prints).elim
  split at h
  · exact (hprints h fun t => hex_prints).elim
  split at h
  · exact (hprints h fun t => hex_prints).elim
  · exact absurd hu (printc_prints h)

/-- A pass that prints nothing. -/
theorem pass_silent (hne : s.format ≠ []) (h : pass putchars stale s = .ok u) (hu : u.out = [])
    (hfresh : Fresh s) :
    ∃ pound n str, s.format = directive pound n (ascii 's') ++ u.format ∧
      s.params = .str str :: u.params ∧
      str.bytes = [] ∧ Fresh u := by
  unfold pass at h
  split at h
  · rename_i hnil
    exact absurd hnil hne
  rename_i c format hformat
  split at h
  · exact absurd hu (printc_prints h)
  rename_i hc
  split at h
  · exact absurd hu (printc_prints h)
  split at h
  · exact absurd hu (printc_prints h)
  obtain ⟨hat, str, hparams, hstr, hrest, hrejected, hpound, hlength⟩ := specifier_silent h hu
  obtain ⟨pound, n, hflags⟩ := flags_skipped { s with format }
  have hparams' : (flags { s with format }).params = s.params ∧
      (flags { s with format }).rejected_formater = s.rejected_formater := by
    unfold flags
    split <;> exact ⟨rfl, rfl⟩
  have hcons : (flags { s with format }).format = ascii 's' :: u.format := by
    rw [Locals.at] at hat
    rw [hrest]
    cases hf : (flags { s with format }).format with
    | nil => rw [hf] at hat; cases hat
    | cons d l =>
      rw [hf] at hat
      rw [Option.some.inj hat]
      rfl
  refine ⟨pound, n, str, ?_, hparams'.1 ▸ hparams, hstr, ⟨?_, hpound, hlength⟩⟩
  · rw [hformat, not_not.mp hc, directive, List.cons_append]
    refine congrArg _ (hflags.trans ?_)
    rw [hcons, List.append_assoc _ [ascii 's']]
    rfl
  · rw [hrejected, hparams'.2, hfresh.rejected]

/-- A format that prints nothing is silent. -/
theorem silent_of_passes (hnul : 0#8 ∉ s.format) (hfresh : Fresh s) {fuel : Nat}
    (h : passes putchars stale fuel s = .ok t) (ht : t.out = []) : Silent s.format s.params := by
  induction fuel generalizing s with
  | zero =>
    unfold passes at h
    split at h
    · rename_i hnil
      rw [hnil]
      exact .nil _
    · cases h
  | succ fuel ih =>
    by_cases hnil : s.format = []
    · rw [hnil]
      exact .nil _
    rw [passes_succ hnil] at h
    obtain ⟨u, hpass, h⟩ := Lib.bind_eq_ok.mp h
    have hnul' := (pass_progress hnul hnil hpass).no_nul hnul
    have hu : u.out = [] := by
      by_contra hout
      exact passes_keeps (P := (· ≠ [])) (fun data out _ hne => List.append_ne_nil_of_left_ne_nil hne data)
        hnul' hout h ht
    obtain ⟨pound, n, str, hformat, hparams, hstr, hfresh'⟩ := pass_silent hnil hpass hu hfresh
    rw [hformat, hparams]
    exact .directive pound n hstr (ih hnul' hfresh' h)

end Printing

/-! ## The destination -/

theorem Dest.print_nil (d : Dest) : d.print [] = d := Lib.loop_of_le (Nat.zero_le _) d _

/-- Behind the first byte no NUL is written. -/
theorem Dest.print_keeps {data : List Byte} (hdata : 0#8 ∉ data.tail) {d : Dest}
    (hd : ∀ i, 0 < i → d.dest i ≠ 0#8) : ∀ i, 0 < i → (d.print data).dest i ≠ 0#8 := by
  refine Lib.loop_keeps (P := fun d : Dest => ∀ i, 0 < i → d.dest i ≠ 0#8) hd
    fun i d _ hi h j hj => ?_
  show Function.update d.dest i (data.getD i 0#8) j ≠ 0#8
  by_cases hij : j = i
  · rw [hij, Function.update_self]
    obtain ⟨k, rfl⟩ : ∃ k, i = k + 1 := ⟨i - 1, by omega⟩
    intro hz
    refine hdata (List.mem_of_getElem? (i := k) ?_)
    rw [List.getElem?_tail, ← hz, List.getD_eq_getElem?_getD, List.getElem?_eq_getElem hi]
    rfl
  · rw [Function.update_of_ne hij]
    exact h j hj

theorem entry_fresh {σ : Type} (stale : Stale) (format : CString) (params : List Arg) (out : σ) :
    Fresh (entry stale format params out) := ⟨rfl, rfl, rfl⟩

variable {stale stale' : Stale} {format : CString} {params : List Arg} {n : BitVec 32} {out : List Byte}

/-- The count of a silent format. -/
def silent_count (stale : Stale) (format : CString) : BitVec 32 :=
  if format.bytes = [] then 0#32 else stale.amount

theorem vprintf_silent (h : Silent format.bytes params) (stale : Stale) :
    vprintf stale format params = .ok (silent_count stale format, []) := by
  obtain ⟨t, ht, hout, hwritten⟩ := @passes_silent _ putchars stale _ List.append_nil _ _ h rfl rfl
    (entry_fresh stale format params [])
  rw [vprintf, show format_loop putchars stale format params [] = .ok t from ht]
  show Except.ok (t.written, t.out) = _
  rw [hout, hwritten]
  show Except.ok (0#32 + silent_count stale format, _) = _
  rw [BitVec.zero_add]
  rfl

theorem vsprintf_silent (h : Silent format.bytes params) (stale : Stale) (dest : Buffer) :
    vsprintf stale dest format params = .ok (silent_count stale format, delivered dest []) := by
  obtain ⟨t, ht, hout, hwritten⟩ := @passes_silent _ Dest.print stale _ Dest.print_nil _ _ h rfl rfl
    (entry_fresh stale format params ⟨dest, 0⟩)
  rw [vsprintf, show format_loop Dest.print stale format params ⟨dest, 0⟩ = .ok t from ht]
  show Except.ok (t.written, (t.out.print [0#8]).dest) = _
  rw [hout, hwritten]
  show Except.ok (0#32 + silent_count stale format, Function.update dest 0 0#8) = _
  rw [BitVec.zero_add]
  congr 2
  funext i
  cases i with
  | zero => rfl
  | succ i => rfl

/-- **Copies of one parser.** When `vprintf` returns, `vsprintf` returns the same count and leaves
the printed characters and their NUL in `dest`, and nothing else, if and only if the format is
silent and both start with the same value left in `amount` (where the format is not empty). -/
theorem vsprintf_matches_iff (h : vprintf stale format params = .ok (n, out)) :
    Matches stale' format params n out ↔
      Silent format.bytes params ∧ (format.bytes = [] ∨ stale'.amount = stale.amount) := by
  constructor
  · intro hmatches
    have hnil : out = [] := by
      obtain ⟨t, hloop, hdest⟩ := Lib.bind_eq_ok.mp (hmatches fun _ => 1#8)
      have hkeeps : ∀ i, 0 < i → t.out.dest i ≠ 0#8 :=
        passes_keeps (P := fun d : Dest => ∀ i, 0 < i → d.dest i ≠ 0#8)
          (fun data d hdata hd => Dest.print_keeps hdata hd) format.no_nul
            (fun i _ => show 1#8 ≠ 0#8 by decide) hloop
      have hwritten := congrFun (Prod.mk.inj (Except.ok.inj hdest)).2 out.length
      rw [delivered, if_pos rfl] at hwritten
      by_contra hout
      exact Dest.print_keeps (by decide) hkeeps _ (List.length_pos_iff.mpr hout) hwritten
    obtain ⟨t, hloop, -, hout⟩ := vprintf_out h
    have hsilent : Silent format.bytes params :=
      silent_of_passes format.no_nul (entry_fresh stale format params []) hloop (hout.trans hnil)
    refine ⟨hsilent, ?_⟩
    rw [vprintf_silent hsilent] at h
    have hcount := hmatches fun _ => 0#8
    rw [vsprintf_silent hsilent] at hcount
    have heq : silent_count stale' format = silent_count stale format :=
      (Prod.mk.inj (Except.ok.inj hcount)).1.trans (Prod.mk.inj (Except.ok.inj h)).1.symm
    unfold silent_count at heq
    by_cases hempty : format.bytes = []
    · exact .inl hempty
    · rw [if_neg hempty, if_neg hempty] at heq
      exact .inr heq
  · rintro ⟨hsilent, hamount⟩ dest
    rw [vprintf_silent hsilent] at h
    obtain ⟨rfl, rfl⟩ := Prod.mk.inj (Except.ok.inj h)
    rw [vsprintf_silent hsilent]
    congr 2
    unfold silent_count
    obtain hempty | hamount := hamount
    · rw [if_pos hempty, if_pos hempty]
    · rw [hamount]

def no_locals : Stale := ⟨0#32, fun _ => 0#32, fun _ => 0#8⟩

/-- `"%s"` with an empty string. -/
theorem vsprintf_matches_empty : Matches no_locals ⟨[ascii '%', ascii 's'], by decide⟩
    [.str ⟨[], List.not_mem_nil⟩] 0#32 [] :=
  (@vsprintf_matches_iff no_locals no_locals _ _ _ _ rfl).mpr
    ⟨.directive false 0 rfl (.nil []), .inr rfl⟩

/-- `"a"` is written without a NUL. -/
theorem vsprintf_a : vprintf no_locals ⟨[ascii 'a'], by decide⟩ [] = .ok (1#32, [ascii 'a']) ∧
    ¬ Matches no_locals ⟨[ascii 'a'], by decide⟩ [] 1#32 [ascii 'a'] := by
  refine ⟨rfl, fun h => ?_⟩
  have hwritten := congrFun (Prod.mk.inj (Except.ok.inj (h fun _ => 1#8))).2 1
  revert hwritten
  decide

end Condor.Libc
