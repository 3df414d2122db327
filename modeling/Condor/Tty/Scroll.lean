import Condor.Tty.ScrollAsm

/-!
# What `terminal_scroll` does

The copy takes 24 rows from row 2 on, so its last row is row 25, which is behind
the screen, and the fill goes to that row: no scroll stays in the 25 rows
(`not_scrollsIn`). How many dwords are copied depends on the upper half of `eax`,
which `mulw` leaves as it was. Where that half is zero, the rows do move, and the
last one is what row 25 was: blank, if the scroll before has filled it in the
colour that is wanted now (`scrolls_iff`).
-/

namespace Condor.Tty.Scroll

variable {p : BitVec 32} {c : Cpu} {n : Nat}

/-! ## String instructions -/

/-- The pointers, the count and the addresses after some dwords of `movsd`. -/
structure Copied (c : Cpu) (n : Nat) (c' : Cpu) : Prop where
  esi : c'.esi = c.esi + BitVec.ofNat 32 (4 * n)
  edi : c'.edi = c.edi + BitVec.ofNat 32 (4 * n)
  ecx : c'.ecx = c.ecx - BitVec.ofNat 32 n
  eax : c'.eax = c.eax
  df : c'.df = false
  touched : ∀ i < n, c.esi + BitVec.ofNat 32 (4 * i) ∈ c'.touched

theorem ofNat_dwords_succ (n : Nat) : BitVec.ofNat 32 (4 * (n + 1)) = BitVec.ofNat 32 (4 * n) + 4#32 := by
  rw [Nat.mul_succ, BitVec.ofNat_add]

theorem movsd_copied (hdf : c.df = false) (n : Nat) : Copied c n (Cpu.movsd^[n] c) := by
  induction n with
  | zero => exact ⟨(BitVec.add_zero c.esi).symm, (BitVec.add_zero c.edi).symm, (BitVec.sub_zero c.ecx).symm,
      rfl, hdf, fun i hi => absurd hi (Nat.not_lt_zero i)⟩
  | succ n ih =>
    rw [Function.iterate_succ_apply']
    generalize Cpu.movsd^[n] c = c' at ih
    have hstride : c'.stride = 4#32 := if_neg (by rw [ih.df]; exact Bool.false_ne_true)
    refine ⟨?_, ?_, ?_, ih.eax, ih.df, fun i hi => ?_⟩
    · show c'.esi + c'.stride = _
      rw [hstride, ih.esi, ofNat_dwords_succ, BitVec.add_assoc]
    · show c'.edi + c'.stride = _
      rw [hstride, ih.edi, ofNat_dwords_succ, BitVec.add_assoc]
    · show c'.ecx - 1#32 = _
      rw [ih.ecx, BitVec.ofNat_add, BitVec.sub_sub]
    · show _ ∈ c'.touched ++ [c'.esi, c'.edi]
      obtain hlt | rfl := Nat.lt_succ_iff_lt_or_eq.mp hi
      · exact List.mem_append_left _ (ih.touched i hlt)
      · exact List.mem_append_right _ (List.mem_cons.mpr (.inl ih.esi.symm))

/-- Upwards from a source ahead of the destination, `movsd` copies the rows as they were. -/
theorem movsd_mem (hdf : c.df = false) (h : (c.esi - c.edi).toNat + 4 * n ≤ 2 ^ 32) :
    (Cpu.movsd^[n] c).mem = Lib.moved (4 * n) c.edi c.esi c.mem := by
  induction n with
  | zero => exact Lib.moved_zero.symm
  | succ n ih =>
    have hc := movsd_copied hdf n
    rw [Function.iterate_succ_apply']
    show Lib.moved 4 (Cpu.movsd^[n] c).edi (Cpu.movsd^[n] c).esi (Cpu.movsd^[n] c).mem = _
    rw [hc.edi, hc.esi, ih (by omega), Lib.moved_moved (by omega) (by decide), Nat.mul_succ]

/-- The bytes that `stosl` fills with. -/
def pattern (eax : BitVec 32) (i : Nat) : BitVec 8 := (eax >>> (8 * (i % 4))).setWidth 8

structure Filled (c : Cpu) (n : Nat) (c' : Cpu) : Prop where
  edi : c'.edi = c.edi + BitVec.ofNat 32 (4 * n)
  eax : c'.eax = c.eax
  df : c'.df = false
  touched : ∀ a ∈ c.touched, a ∈ c'.touched

theorem stosl_filled (hdf : c.df = false) (n : Nat) : Filled c n (Cpu.stosl^[n] c) := by
  induction n with
  | zero => exact ⟨(BitVec.add_zero c.edi).symm, rfl, hdf, fun _ ha => ha⟩
  | succ n ih =>
    rw [Function.iterate_succ_apply']
    generalize Cpu.stosl^[n] c = c' at ih
    have hstride : c'.stride = 4#32 := if_neg (by rw [ih.df]; exact Bool.false_ne_true)
    refine ⟨?_, ih.eax, ih.df, fun a ha => List.mem_append_left _ (ih.touched a ha)⟩
    show c'.edi + c'.stride = _
    rw [hstride, ih.edi, ofNat_dwords_succ, BitVec.add_assoc]

theorem stosl_mem (hdf : c.df = false) (h : 4 * n ≤ 2 ^ 32) :
    (Cpu.stosl^[n] c).mem = Lib.filled (4 * n) c.edi (pattern c.eax) c.mem := by
  induction n with
  | zero => exact Lib.filled_zero.symm
  | succ n ih =>
    have hc := stosl_filled hdf n
    rw [Function.iterate_succ_apply']
    show Lib.filled 4 (Cpu.stosl^[n] c).edi (fun i => ((Cpu.stosl^[n] c).eax >>> (8 * i)).setWidth 8)
      (Cpu.stosl^[n] c).mem = _
    have hpattern : ∀ i < 4, (c.eax >>> (8 * i)).setWidth 8 = pattern c.eax (4 * n + i) := fun i hi => by
      rw [pattern, Nat.mul_add_mod, Nat.mod_eq_of_lt hi]
    rw [hc.edi, hc.eax, ih (by omega), Lib.filled_congr hpattern, Lib.filled_filled (by omega) (by decide),
      Nat.mul_succ]

/-! ## The registers -/

theorem toNat_set_low (r : BitVec 32) (v : BitVec 16) :
    (set_low r v).toNat = r.toNat / 65536 * 65536 + v.toNat := by
  have hr := r.isLt
  have hv := v.isLt
  unfold set_low
  rw [BitVec.toNat_append, BitVec.extractLsb'_toNat, ← Nat.shiftLeft_add_eq_or_of_lt hv, Nat.shiftLeft_eq,
    Nat.shiftRight_eq_div_pow]
  omega

theorem low_set_low (r : BitVec 32) (v : BitVec 16) : (set_low r v).setWidth 16 = v := by
  have hv := v.isLt
  refine BitVec.eq_of_toNat_eq ?_
  rw [BitVec.toNat_setWidth, toNat_set_low]
  omega

/-- The processor in front of `rep movsd`. -/
def before_copy (p : BitVec 32) (c : Cpu) : Cpu :=
  let ax := set_low c.eax (load16 c.mem (width_at p))
  let product := (ax.setWidth 16).setWidth 32 * (load16 c.mem (height_at p)).setWidth 32
  { c with
    df := false
    esi := load32 c.mem (buffer_at p) + 0x140#32
    edi := load32 c.mem (buffer_at p) + 0x0A0#32
    ecx := set_low ax (product.setWidth 16) >>> 1
    eax := (0#32 <<< 16 ||| load32 c.mem (default_color_at p)) <<< 8
    edx := set_low c.edx ((product >>> 16).setWidth 16)
    touched := [] }

def after_copy (p : BitVec 32) (c : Cpu) : Cpu := Cpu.movsd^[(before_copy p c).ecx.toNat] (before_copy p c)

/-- The processor in front of `rep stosl`. -/
def before_fill (p : BitVec 32) (c : Cpu) : Cpu :=
  { after_copy p c with
    ecx := set_low (after_copy p c).ecx (load16 (after_copy p c).mem (width_at p)) >>> 1
    edi := 0xC00B8FA0#32 }

theorem terminal_scroll_eq (p : BitVec 32) (c : Cpu) :
    terminal_scroll p c = Cpu.stosl^[(before_fill p c).ecx.toNat] (before_fill p c) := by
  have hsetup : ((scroll_asm p).take 13).foldl exec { c with touched := [] } = before_copy p c := by
    simp only [scroll_asm, List.take_succ_cons, List.take_zero, List.foldl_cons, List.foldl_nil, exec, Cpu.get,
      Cpu.set]
    unfold before_copy
    rfl
  have hsplit : scroll_asm p = (scroll_asm p).take 13 ++
      [.repMovsd, .movwMem (width_at p) .ecx, .shr 1 .ecx, .movlImm 0xC00B8FA0#32 .edi, .repStosl] := rfl
  unfold terminal_scroll
  rw [hsplit, List.foldl_append, hsetup]
  simp only [List.foldl_cons, List.foldl_nil, exec, Cpu.get, Cpu.set]
  unfold before_fill after_copy
  rfl

theorem Initialised.esi (h : Initialised p c.mem) : (before_copy p c).esi = screen_at 320 := by
  show load32 c.mem (buffer_at p) + 0x140#32 = _
  rw [h.buffer]
  rfl

theorem Initialised.edi (h : Initialised p c.mem) : (before_copy p c).edi = screen_at 160 := by
  show load32 c.mem (buffer_at p) + 0x0A0#32 = _
  rw [h.buffer]
  rfl

/-- The upper half of `eax` is part of the count. -/
theorem Initialised.ecx (h : Initialised p c.mem) :
    (before_copy p c).ecx.toNat = c.eax.toNat / 65536 * 32768 + 960 := by
  have hproduct : ((80#16).setWidth 32 * (24#16).setWidth 32).setWidth 16 = 1920#16 := by decide
  unfold before_copy
  dsimp only
  rw [h.width, h.height, low_set_low, hproduct, BitVec.toNat_ushiftRight, toNat_set_low, toNat_set_low,
    Nat.shiftRight_eq_div_pow]
  show (_ / 65536 * 65536 + 1920) / 2 = _
  have h80 : (80#16).toNat = 80 := rfl
  omega

/-! ## Row 25 -/

/-- Whatever the registers are, the copy reads the row behind the screen. -/
theorem Initialised.reads_row_25 (h : Initialised p c.mem) : screen_at 4000 ∈ (terminal_scroll p c).touched := by
  have hecx := h.ecx
  have hcopied := movsd_copied (show (before_copy p c).df = false from rfl) (before_copy p c).ecx.toNat
  have hread := hcopied.touched 920 (by omega)
  have hrow : screen_at 320 + BitVec.ofNat 32 (4 * 920) = screen_at 4000 := by decide
  rw [h.esi, hrow] at hread
  have hdf : (before_fill p c).df = false := hcopied.df
  have hfill : screen_at 4000 ∈ (before_fill p c).touched := hread
  rw [terminal_scroll_eq]
  exact (stosl_filled hdf _).touched _ hfill

/-- **Scrolling.** It never stays in the 25 rows, whatever the memory, the registers and the colour are. -/
theorem not_scrollsIn (p : BitVec 32) (c : Cpu) (h : Initialised p c.mem) (fg bg : BitVec 8) :
    ¬ ScrollsIn (vga_makeColor fg bg) c (terminal_scroll p c) := fun hscrolls =>
  absurd (hscrolls.inside _ h.reads_row_25) (by decide)

/-! ## The rows -/

/-- The width of the terminal is not kept in the rows that are copied to. -/
def Apart (p : BitVec 32) : Prop :=
  3840 ≤ (width_at p - screen_at 160).toNat ∧ 3840 ≤ (width_at p + 1#32 - screen_at 160).toNat

instance (p : BitVec 32) : Decidable (Apart p) := inferInstanceAs (Decidable (_ ∧ _))

/-- With a zero upper half of `eax`, 24 rows move up, and row 25 is filled. -/
theorem Initialised.mem (h : Initialised p c.mem) (hapart : Apart p) (heax : c.eax.toNat < 65536) :
    (terminal_scroll p c).mem = Lib.filled 160 (screen_at 4000) (pattern (before_copy p c).eax)
      (Lib.moved 3840 (screen_at 160) (screen_at 320) c.mem) := by
  have hecx : (before_copy p c).ecx.toNat = 960 := by
    rw [h.ecx]
    omega
  have hcopied : Copied (before_copy p c) 960 (after_copy p c) := by
    unfold after_copy
    rw [hecx]
    exact movsd_copied rfl 960
  have hmem : (after_copy p c).mem = Lib.moved 3840 (screen_at 160) (screen_at 320) c.mem := by
    unfold after_copy
    rw [hecx, movsd_mem rfl (by rw [h.esi, h.edi]; decide), h.esi, h.edi]
    rfl
  have hwidth : load16 (after_copy p c).mem (width_at p) = 80#16 := by
    rw [hmem, load16, Lib.moved, Lib.moved, if_neg (Nat.not_lt.mpr hapart.2), if_neg (Nat.not_lt.mpr hapart.1)]
    exact h.width
  have hfill : (before_fill p c).ecx.toNat = 40 := by
    have hzero : (after_copy p c).ecx.toNat = 0 := by
      rw [hcopied.ecx, BitVec.toNat_sub, hecx]
      rfl
    unfold before_fill
    dsimp only
    rw [hwidth, BitVec.toNat_ushiftRight, toNat_set_low, hzero]
    rfl
  have hdf : (before_fill p c).df = false := hcopied.df
  rw [terminal_scroll_eq, hfill, stosl_mem hdf (by decide)]
  show Lib.filled 160 (screen_at 4000) (pattern (after_copy p c).eax) (after_copy p c).mem = _
  rw [hcopied.eax, hmem]

theorem screen_at_sub {i j : Nat} (hi : i < 2 ^ 32) (hj : j < 2 ^ 32) :
    (screen_at j - screen_at i).toNat = if i ≤ j then j - i else 2 ^ 32 + j - i := by
  have hoffset : (screen_at j - VGA_MEMORY).toNat = j := by
    rw [screen_at, BitVec.add_comm, BitVec.add_sub_cancel, BitVec.toNat_ofNat, Nat.mod_eq_of_lt hj]
  have hsub := Lib.toNat_sub_add hi (screen_at j) VGA_MEMORY
  rwa [hoffset] at hsub

theorem screen_at_next_row (i : Nat) : screen_at 320 + (screen_at i - screen_at 160) = screen_at (i + 160) := by
  have hrow : screen_at 320 = screen_at 160 + BitVec.ofNat 32 160 := by decide
  rw [hrow, add_right_comm, add_sub_cancel, screen_at, screen_at, BitVec.ofNat_add, BitVec.add_assoc]

/-- The rows of the screen after a scroll with a zero upper half of `eax`. -/
theorem Initialised.rows (h : Initialised p c.mem) (hapart : Apart p) (heax : c.eax.toNat < 65536) {i : Nat}
    (hi : i < 4000) :
    (terminal_scroll p c).mem (screen_at i) = c.mem (screen_at (if i < 160 then i else i + 160)) := by
  have hfilled : ¬ (screen_at i - screen_at 4000).toNat < 160 := by
    rw [screen_at_sub (by decide) (by omega), if_neg (by omega)]
    omega
  rw [h.mem hapart heax, Lib.filled, if_neg hfilled, Lib.moved, screen_at_sub (by decide) (by omega)]
  by_cases hfirst : i < 160
  · rw [if_neg (show ¬ 160 ≤ i by omega), if_neg (by omega), if_pos hfirst]
  · rw [if_pos (show 160 ≤ i by omega), if_pos (by omega), if_neg hfirst, screen_at_next_row]

/-- **Rows.** With a zero upper half of `eax`, row 0 stays and rows 2 to 24 move up. The last row is blank in a
colour if and only if row 25 was. -/
theorem scrolls_iff (h : Initialised p c.mem) (hapart : Apart p) (heax : c.eax.toNat < 65536) (color : BitVec 8) :
    (∀ i < 160, (terminal_scroll p c).mem (screen_at i) = c.mem (screen_at i)) ∧
    (∀ i, 160 ≤ i → i < 24 * 160 → (terminal_scroll p c).mem (screen_at i) = c.mem (screen_at (i + 160))) ∧
    ((∀ x < 80, IsBlank color ((terminal_scroll p c).mem (screen_at (24 * 160 + 2 * x)))
      ((terminal_scroll p c).mem (screen_at (24 * 160 + 2 * x + 1)))) ↔
      ∀ x < 80, IsBlank color (c.mem (screen_at (25 * 160 + 2 * x))) (c.mem (screen_at (25 * 160 + 2 * x + 1)))) := by
  refine ⟨fun i hi => ?_, fun i hlow hhigh => ?_, forall₂_congr fun x hx => ?_⟩
  · rw [h.rows hapart heax (by omega), if_pos hi]
  · rw [h.rows hapart heax (by omega), if_neg (by omega)]
  · have hchar : 24 * 160 + 2 * x + 160 = 25 * 160 + 2 * x := by omega
    have hcolour : 24 * 160 + 2 * x + 1 + 160 = 25 * 160 + 2 * x + 1 := by omega
    rw [h.rows hapart heax (by omega), h.rows hapart heax (by omega), if_neg (by omega), if_neg (by omega),
      hchar, hcolour]

/-! ## A first scroll -/

/-- Memory with a terminal at `0xC0110000`, and the letter A in row 25. -/
def boot_memory : Mem := fun a =>
  if a = 0xC0110000#32 then 80#8
  else if a = 0xC0110002#32 then 24#8
  else if a = 0xC011000D#32 then 1#8
  else if a = 0xC0110011#32 then 0x80#8
  else if a = 0xC0110012#32 then 0x0B#8
  else if a = 0xC0110013#32 then 0xC0#8
  else if a = screen_at 4000 then Libc.ascii 'A'
  else 0#8

def boot_cpu : Cpu := ⟨0#32, 0#32, 0#32, 0#32, 0#32, false, boot_memory, []⟩

theorem not_scrollsIn_boot : ¬ ScrollsIn (vga_makeColor 7#8 0#8) boot_cpu (terminal_scroll 0xC0110000#32 boot_cpu) :=
  not_scrollsIn 0xC0110000#32 boot_cpu (by decide) 7#8 0#8

/-- The letter behind the screen moves into its last row, which is not blank then. -/
theorem row_25_on_screen :
    let c' := terminal_scroll 0xC0110000#32 boot_cpu
    Initialised 0xC0110000#32 boot_cpu.mem ∧ c'.mem (screen_at (24 * 160)) = Libc.ascii 'A' ∧
    screen_at 4000 ∈ c'.touched ∧ ¬ ScrollsIn (vga_makeColor 7#8 0#8) boot_cpu c' := by
  have hinit : Initialised 0xC0110000#32 boot_cpu.mem := by decide
  have hletter : (terminal_scroll 0xC0110000#32 boot_cpu).mem (screen_at (24 * 160)) = Libc.ascii 'A' := by
    rw [hinit.rows (by decide) (by decide) (by decide)]
    decide
  refine ⟨hinit, hletter, hinit.reads_row_25, fun hscrolls => ?_⟩
  have hblank := (hscrolls.last 0 (by decide)).1
  rw [Nat.mul_zero, Nat.add_zero, hletter] at hblank
  exact absurd hblank (by decide)

end Condor.Tty.Scroll
