import Condor.Libc.Output
import Condor.Sched.Queue
import Condor.Tty.Screen

/-!
# The status line

`scheduler_preempt` ends with a line about the process that goes on, printed with
`printf` to the first row of the screen. The cursor is put there with the updates
of the hardware cursor switched off, and the position and the colour are set back
behind the line. The line has 42 characters at most and its newline, so it leaves
the first row no earlier than that newline does, and nothing of it is seen but the
first row (`preempt_invisible`). What is lost is the position that was stored before.
-/

namespace Condor.Tty

open Libc

def VGA_WHITE : BitVec 8 := 15#8

namespace Terminal

def set_shouldUpdateCursor (t : Terminal) (value : BitVec 8) : Terminal := { t with should_update_cursor := value }

def setColor (t : Terminal) (fg bg : BitVec 8) : Terminal :=
  { t with default_color := (vga_makeColor fg bg).setWidth 16 }

def getColor (t : Terminal) : BitVec 16 := t.default_color

end Terminal

/-- `printf` on the console: `putchar` hands each character to `terminal_putchar`. -/
def printf (rows : Screen → Screen) (stale : Stale) (format : CString) (params : List Arg) (k : Console) :
    Except Stop Console := do
  let s ← format_loop (fun data k => data.foldl (Console.putchar rows) k) stale format params k
  .ok s.out

/-- `"Current PID(%d): (EIP: %#lx)\n"`. -/
def status_format : CString := ⟨"Current PID(%d): (EIP: %#lx)\n".toList.map ascii, by decide⟩

/-- The end of `scheduler_preempt`, from `terminal_storePosition` on. -/
def status_line (rows : Screen → Screen) (stale : Stale) (pid eip : BitVec 32) (k : Console) :
    Except Stop Console := do
  let k := { k with toTerminal := k.toTerminal.storePosition }
  let k := { k with toTerminal := k.toTerminal.set_shouldUpdateCursor 0#8 }
  let k := k.moveCursor 0#8 0#8
  let old_color := k.toTerminal.getColor
  let k := { k with toTerminal := k.toTerminal.setColor VGA_WHITE VGA_BLACK }
  let k ← printf rows stale status_format [.int pid, .int eip] k
  let fg : BitVec 8 := (old_color &&& 0xFF#16).setWidth 8
  let bg : BitVec 8 := (old_color >>> 8).setWidth 8
  let k := { k with toTerminal := k.toTerminal.setColor fg bg }
  let k := { k with toTerminal := k.toTerminal.set_shouldUpdateCursor 1#8 }
  .ok { k with toTerminal := k.toTerminal.restorePosition }

section Preempt

variable {α : Type} [DecidableEq α] (rows : Screen → Screen) (stale : Stale) (pid : α → BitVec 32)

/-- What `scheduler_preempt` prints when it leaves the scheduler as `s'`. -/
def preempt_prints (s s' : Sched.State α) (k : Console) : Except Stop Console :=
  if s.p_current = none ∨ s.is_schedueling_proc then .ok k
  else match s'.p_current with
    | none => .error .wild
    | some p => status_line rows stale (pid p) (s'.proc p).regs.state.eip k

/-- `scheduler_preempt` on the scheduler and the console. -/
def scheduler_preempt (s : Sched.State α) (state : StackState) (k : Console) :
    Option ((Sched.State α × StackState) × Except Stop Console) :=
  (Sched.scheduler_preempt s state).map fun r => (r, preempt_prints rows stale pid s r.1 k)

end Preempt

/-- A terminal that printing can reach: the cursor is shown, and the colour is one of `vga_makeColor`. -/
structure Printing (t : Terminal) : Prop where
  should_update_cursor : t.should_update_cursor = 1#8
  default_color : t.default_color.toNat < 256

/-- What the code that was interrupted can see of `k'` is as in `k`. -/
structure Invisible (k k' : Console) : Prop where
  column : k'.column = k.column
  row : k'.row = k.row
  default_color : k'.default_color = k.default_color
  should_update_cursor : k'.should_update_cursor = k.should_update_cursor
  /-- The first row has the cells 0 to 79. -/
  vga_buffer : ∀ i : BitVec 16, 80 ≤ i.toNat → k'.vga_buffer i = k.vga_buffer i
  ports : k'.ports = k.ports

variable {rows : Screen → Screen} {stale : Stale} {k k' : Console} {t : Terminal} {n : Nat} {c : Byte}

/-! ## Printing keeps the settings -/

/-- What printing does not change. -/
def settings (t : Terminal) : BitVec 8 × BitVec 16 := (t.should_update_cursor, t.default_color)

theorem Printing.of_settings (h : Printing t) {t' : Terminal} (heq : settings t' = settings t) : Printing t' where
  should_update_cursor := (congrArg Prod.fst heq).trans h.should_update_cursor
  default_color := by
    rw [show t'.default_color = t.default_color from congrArg Prod.snd heq]
    exact h.default_color

/-- The line itself keeps the terminal one that printing can reach. -/
theorem Invisible.printing (h : Invisible k k') (hk : Printing k.toTerminal) : Printing k'.toTerminal :=
  hk.of_settings (Prod.ext h.should_update_cursor h.default_color)

theorem Printing.setColor (h : Printing t) (fg bg : BitVec 8) : Printing (t.setColor fg bg) where
  should_update_cursor := h.should_update_cursor
  default_color := by
    show ((vga_makeColor fg bg).setWidth 16).toNat < 256
    rw [BitVec.toNat_setWidth_of_le (by decide)]
    exact (vga_makeColor fg bg).isLt

theorem settings_next_row (t : Terminal) : settings t.next_row = settings t := by
  unfold Terminal.next_row
  dsimp only
  split <;> rfl

theorem settings_moveCursor (t : Terminal) (x y : BitVec 8) : settings (t.moveCursor x y) = settings t := by
  unfold Terminal.moveCursor
  dsimp only
  split <;> rfl

theorem settings_tab_column (t : Terminal) : settings t.tab_column = settings t := by
  unfold Terminal.tab_column
  dsimp only
  split
  · exact settings_next_row _
  · rfl

theorem settings_put (t : Terminal) (c : Byte) (color : BitVec 16) : settings (t.put c color) = settings t := by
  unfold Terminal.put
  dsimp only
  split
  · exact settings_next_row _
  · rfl

theorem settings_specialChar (t : Terminal) (c : Byte) : settings (t.specialChar c).1 = settings t := by
  unfold Terminal.specialChar
  dsimp only
  split
  · rw [settings_moveCursor]
    split
    · exact settings_next_row t
    split
    · rw [settings_tab_column, settings_tab_column, settings_tab_column, settings_tab_column]
    · split <;> rfl
  · rfl

theorem settings_putchar_Color (t : Terminal) (c : Byte) (color : BitVec 16) :
    settings (t.putchar_Color c color) = settings t := by
  have hspecial := settings_specialChar t c
  unfold Terminal.putchar_Color
  split
  · rename_i t' heq
    rwa [heq] at hspecial
  · rename_i t' heq
    rw [heq] at hspecial
    rw [settings_moveCursor, settings_put, hspecial]

theorem settings_string_char (t : Terminal) (c : Byte) (color : BitVec 16) :
    settings (t.string_char c color) = settings t := by
  have hspecial := settings_specialChar t c
  unfold Terminal.string_char
  split
  · rename_i t' heq
    rwa [heq] at hspecial
  · rename_i t' heq
    rw [heq] at hspecial
    rw [settings_put, hspecial]

theorem settings_puts_Color (t : Terminal) (fuel : Nat) (string : CString) (color : BitVec 16) :
    settings (t.puts_Color fuel string color).1 = settings t := by
  have hloop (i : BitVec 16) : settings (Terminal.puts_loop string.bytes color fuel i t).1 = settings t := by
    induction fuel generalizing i t with
    | zero => rfl
    | succ fuel ih =>
      unfold Terminal.puts_loop
      split
      · rw [ih, settings_string_char]
      · rfl
  unfold Terminal.puts_Color
  split
  · rename_i t' heq
    rw [settings_moveCursor, ← hloop 0#16, heq]
  · rename_i t' heq
    rw [← hloop 0#16, heq]

theorem settings_exec (t : Terminal) (fuel : Nat) (op : Op) : settings (exec fuel t op).1 = settings t := by
  cases op with
  | putchar c => exact settings_putchar_Color t c t.default_color
  | puts string => exact settings_puts_Color t fuel string t.default_color
  | putchar_Color c color => exact settings_putchar_Color t c color
  | puts_Color string color => exact settings_puts_Color t fuel string color
  | storePosition => rfl
  | restorePosition => rfl
  | moveCursor p => exact settings_moveCursor t p.x p.y

/-- Every terminal that calls reach from boot on. -/
theorem run_printing (fuel : Nat) (ops : List Op) : Printing (run fuel terminal_init ops) := by
  have hrun (t : Terminal) : settings (run fuel t ops) = settings t := by
    induction ops generalizing t with
    | nil => rfl
    | cons op ops ih =>
      unfold run
      split
      · rw [ih, settings_exec]
      · exact settings_exec t fuel op
  exact Printing.of_settings ⟨rfl, by decide⟩ (hrun terminal_init)

/-! ## The text -/

/-- Text without directives. -/
def literals (l : List Byte) (h : ∀ c ∈ l, c ≠ 0#8 ∧ c ≠ ascii '%') : List Piece := l.pmap Piece.literal h

theorem source_literals (l : List Byte) (h : ∀ c ∈ l, c ≠ 0#8 ∧ c ≠ ascii '%') : (literals l h).flatMap Piece.source = l := by
  induction l with
  | nil => rfl
  | cons c l ih => exact congrArg (c :: ·) (ih fun c hc => h c (List.mem_cons_of_mem _ hc))

theorem text_literals (l : List Byte) (h : ∀ c ∈ l, c ≠ 0#8 ∧ c ≠ ascii '%') : (literals l h).flatMap Piece.text = l := by
  induction l with
  | nil => rfl
  | cons c l ih => exact congrArg (c :: ·) (ih fun c hc => h c (List.mem_cons_of_mem _ hc))

theorem args_literals (l : List Byte) (h : ∀ c ∈ l, c ≠ 0#8 ∧ c ≠ ascii '%') : (literals l h).flatMap Piece.args = [] := by
  induction l with
  | nil => rfl
  | cons c l ih => exact ih fun c hc => h c (List.mem_cons_of_mem _ hc)

def status_front : List Byte := "Current PID(".toList.map ascii

def status_middle : List Byte := "): (EIP: ".toList.map ascii

/-- The pieces of the format: `)` and the newline come last. -/
def status_pieces (pid eip : BitVec 32) : List Piece :=
  literals status_front (by decide) ++ .directive false false (.d pid) ::
    (literals status_middle (by decide) ++ .directive true true (.x eip) ::
      literals [ascii ')', 0x0A#8] (by decide))

/-- The line without its newline. -/
def status_text (pid eip : BitVec 32) : List Byte :=
  status_front ++ signed pid ++ status_middle ++ [ascii '0', ascii 'x'] ++ hexadecimal eip.toNat ++ [ascii ')']

theorem format_status_pieces (pid eip : BitVec 32) : format (status_pieces pid eip) = status_format := by
  have hsource : source (status_pieces pid eip) = status_format.bytes := by
    simp only [status_pieces, source, List.flatMap_append, List.flatMap_cons, source_literals]
    rfl
  unfold format
  congr 1

theorem text_status_pieces (pid eip : BitVec 32) : text (status_pieces pid eip) = status_text pid eip ++ [0x0A#8] := by
  simp only [status_pieces, text, List.flatMap_append, List.flatMap_cons, text_literals]
  simp only [status_text, Piece.text, Conv.text, List.append_assoc]
  rfl

theorem args_status_pieces (pid eip : BitVec 32) : args (status_pieces pid eip) = [.int pid, .int eip] := by
  simp only [status_pieces, args, List.flatMap_append, List.flatMap_cons, args_literals]
  rfl

theorem status_pieces_ok {pid : BitVec 32} (hpid : pid ≠ INT_MIN) (eip : BitVec 32) :
    ∀ p ∈ status_pieces pid eip, p.Ok := by
  have hliterals (l : List Byte) (h : ∀ c ∈ l, c ≠ 0#8 ∧ c ≠ ascii '%') : ∀ p ∈ literals l h, p.Ok := by
    intro p hp
    obtain ⟨c, hc, rfl⟩ := List.mem_pmap.mp hp
    trivial
  unfold status_pieces
  rw [List.forall_mem_append, List.forall_mem_cons, List.forall_mem_append, List.forall_mem_cons]
  exact ⟨hliterals _ _, hpid, hliterals _ _, rfl, hliterals _ _⟩

/-- `printf` hands the line and its newline to the terminal. -/
theorem printf_status {pid : BitVec 32} (hpid : pid ≠ INT_MIN) (eip : BitVec 32) (k : Console) :
    printf rows stale status_format [.int pid, .int eip] k =
      .ok ((status_text pid eip ++ [0x0A#8]).foldl (Console.putchar rows) k) := by
  obtain ⟨s, hloop, hout⟩ := @format_loop_text _ stale (status_pieces pid eip) [] (status_pieces_ok hpid eip) id
    (Console.putchar rows) k
  rw [List.append_nil, format_status_pieces, args_status_pieces] at hloop
  rw [text_status_pieces] at hout
  rw [printf, hloop, ← hout]
  rfl

/-! ## The line fits -/

/-- No digit is a special character. -/
theorem checkChar_digits {base : Nat} (hbase : 1 < base) (h16 : base ≤ 16) (n : Nat) :
    ∀ c ∈ (Nat.toDigits base n).map ascii, Terminal.checkChar c = 0#8 := by
  intro c hc
  obtain ⟨d, hd, rfl⟩ := List.mem_map.mp hc
  exact forall_toDigits (P := fun d => Terminal.checkChar (ascii d) = 0#8) hbase h16 (by decide) n d hd

theorem status_text_printable {pid : BitVec 32} (hpid : 0 ≤ pid.toInt) (eip : BitVec 32) :
    ∀ c ∈ status_text pid eip, Terminal.checkChar c = 0#8 := by
  have hdecimal : signed pid = decimal pid.toInt.natAbs := if_neg (Int.not_lt.mpr hpid)
  unfold status_text
  simp only [List.forall_mem_append, hdecimal]
  exact ⟨⟨⟨⟨⟨by decide, checkChar_digits (by decide) (by decide) _⟩, by decide⟩, by decide⟩,
    checkChar_digits (by decide) (by decide) _⟩, by decide⟩

/-- A number has at most 10 decimal and 8 hexadecimal digits. -/
theorem status_text_length {pid : BitVec 32} (hpid : 0 ≤ pid.toInt) (eip : BitVec 32) :
    (status_text pid eip).length ≤ 42 := by
  have hdecimal : signed pid = decimal pid.toInt.natAbs := if_neg (Int.not_lt.mpr hpid)
  have hhigh := BitVec.toInt_lt (x := pid)
  have hpid10 : (decimal pid.toInt.natAbs).length ≤ 10 := by
    rw [decimal, List.length_map, Nat.length_toDigits_le_iff (by decide) (by decide)]
    omega
  have heip8 : (hexadecimal eip.toNat).length ≤ 8 := by
    rw [hexadecimal, List.length_map, Nat.length_toDigits_le_iff (by decide) (by decide)]
    exact eip.isLt
  have hfront : status_front.length = 12 := rfl
  have hmiddle : status_middle.length = 9 := rfl
  simp only [status_text, List.length_append, List.length_cons, List.length_nil, hdecimal, hfront, hmiddle]
  omega

/-! ## Printing the line -/

/-- `k` is in `row`, with the cursor not shown, and has changed the first row of `k₀` only. -/
structure Above (k₀ k : Console) (row : BitVec 8) : Prop where
  row : k.row = row
  should_update_cursor : k.should_update_cursor = 0#8
  column_store : k.column_store = k₀.column_store
  row_store : k.row_store = k₀.row_store
  ports : k.ports = k₀.ports
  vga_buffer : ∀ i : BitVec 16, 80 ≤ i.toNat → k.vga_buffer i = k₀.vga_buffer i

theorem moveCursor_hidden (h : k.should_update_cursor = 0#8) (x y : BitVec 8) : (k.moveCursor x y).toTerminal =
    { k.toTerminal with column := if VGA_WIDTH < x.toNat then 80#8 else x, row := y } := if_pos h

theorem Above.moveCursor {row : BitVec 8} (h : Above k k' row) (x y : BitVec 8) :
    Above k (k'.moveCursor x y) y := by
  have hmove := moveCursor_hidden h.should_update_cursor x y
  constructor <;> try rw [hmove]
  · exact h.should_update_cursor
  · exact h.column_store
  · exact h.row_store
  · exact h.ports
  · exact h.vga_buffer

/-- A character in front of the end of the first row. -/
theorem Above.putchar (rows : Screen → Screen) (h : Above k k' 0#8) (hcolumn : k'.column.toNat + 1 < 80) (hc : Terminal.checkChar c = 0#8) :
    Above k (k'.putchar rows c) 0#8 ∧ (k'.putchar rows c).column.toNat = k'.column.toNat + 1 := by
  have hnext := toNat_next_column (t := k'.toTerminal) (by omega)
  have hwidth : ¬ VGA_WIDTH < (k'.column + 1#8).toNat := by
    show ¬ 80 < _
    omega
  have hput : k'.put rows c k'.default_color =
      let k := k'.putEntryAt k'.column k'.row (vga_makeEntry c (k'.default_color.setWidth 8))
      { k with column := k'.column + 1#8 } := by
    unfold Console.put
    refine if_neg ?_
    show ¬ 80 ≤ (k'.column + 1#8).toNat
    omega
  have habove : Above k (k'.put rows c k'.default_color) 0#8 := by
    rw [hput]
    refine ⟨h.row, h.should_update_cursor, h.column_store, h.row_store, h.ports, fun i hi => ?_⟩
    refine (Function.update_of_ne (fun hindex => ?_) _ _).trans (h.vga_buffer i hi)
    -- the index is the column
    rw [hindex, h.row, BitVec.setWidth_zero, BitVec.zero_mul, BitVec.add_zero,
      BitVec.toNat_setWidth_of_le (by decide)] at hi
    omega
  have hputchar : k'.putchar rows c =
      (k'.put rows c k'.default_color).moveCursor (k'.put rows c k'.default_color).column
        (k'.put rows c k'.default_color).row := by
    unfold Console.putchar Console.putchar_Color Console.specialChar
    rw [hc]
    rfl
  rw [hputchar]
  refine ⟨habove.row ▸ habove.moveCursor _ _, ?_⟩
  rw [moveCursor_hidden habove.should_update_cursor, hput]
  dsimp only
  rw [if_neg hwidth, hnext]

/-- Characters that end in front of the end of the first row. -/
theorem Above.foldl (rows : Screen → Screen) {l : List Byte} (h : Above k k' 0#8) (hl : ∀ c ∈ l, Terminal.checkChar c = 0#8)
    (hcolumn : k'.column.toNat + l.length < 80) :
    Above k (l.foldl (Console.putchar rows) k') 0#8 := by
  induction l generalizing k' with
  | nil => exact h
  | cons c l ih =>
    obtain ⟨hc, hl⟩ := List.forall_mem_cons.mp hl
    rw [List.length_cons] at hcolumn
    obtain ⟨habove, hnext⟩ := h.putchar rows (by omega) hc
    exact ih habove hl (by omega)

/-- The newline goes to the second row. -/
theorem Above.newline (rows : Screen → Screen) (h : Above k k' 0#8) : Above k (k'.putchar rows 0x0A#8) 1#8 := by
  have hrow : k'.row + 1#8 = 1#8 := by rw [h.row]; rfl
  have hnext : k'.next_row rows = { k' with column := 0#8, row := k'.row + 1#8 } := by
    unfold Console.next_row
    refine if_neg ?_
    show ¬ 25 ≤ (k'.row + 1#8).toNat
    rw [hrow]
    decide
  have habove : Above k (k'.next_row rows) 1#8 := by
    rw [hnext]
    exact ⟨hrow, h.should_update_cursor, h.column_store, h.row_store, h.ports, h.vga_buffer⟩
  have hputchar : k'.putchar rows 0x0A#8 =
      (k'.next_row rows).moveCursor (k'.next_row rows).column (k'.next_row rows).row := rfl
  rw [hputchar]
  exact habove.row ▸ habove.moveCursor _ _

/-! ## Before and behind the line -/

/-- A colour of one byte is its own foreground, as `terminal_setColor` takes it. -/
theorem vga_makeColor_split {color : BitVec 16} (h : color.toNat < 256) :
    (vga_makeColor ((color &&& 0xFF#16).setWidth 8) ((color >>> 8).setWidth 8)).setWidth 16 = color := by
  have hfg : color &&& 0xFF#16 = color := by
    refine BitVec.eq_of_toNat_eq ?_
    rw [BitVec.toNat_and]
    exact (Nat.and_two_pow_sub_one_eq_mod color.toNat 8).trans (Nat.mod_eq_of_lt h)
  have hbg : color >>> 8 = 0#16 := by
    refine BitVec.eq_of_toNat_eq ?_
    rw [BitVec.toNat_ushiftRight, Nat.shiftRight_eq_div_pow]
    exact Nat.div_eq_of_lt h
  rw [hfg, hbg, vga_makeColor, BitVec.setWidth_zero, BitVec.zero_shiftLeft, BitVec.zero_or]
  refine BitVec.eq_of_toNat_eq ?_
  rw [BitVec.toNat_setWidth_of_le (by decide), BitVec.toNat_setWidth, Nat.mod_eq_of_lt h]

/-- **The status line.** -/
theorem status_line_invisible {pid : BitVec 32} (hpid : 0 ≤ pid.toInt) (eip : BitVec 32)
    (hk : Printing k.toTerminal) :
    ∃ k', status_line rows stale pid eip k = .ok k' ∧ Invisible k k' := by
  have hmin : pid ≠ INT_MIN := by
    rintro rfl
    exact absurd hpid (by decide)
  have hlength := status_text_length hpid eip
  -- the console at the start of the line
  obtain ⟨k₁, hk₁⟩ : ∃ k₁ : Console, k₁ = Console.mk { k.toTerminal with
      column := 0#8, row := 0#8, column_store := k.column, row_store := k.row, should_update_cursor := 0#8,
      default_color := (vga_makeColor VGA_WHITE VGA_BLACK).setWidth 16 } k.vga_buffer := ⟨_, rfl⟩
  have hstart : Above k₁ k₁ 0#8 := by
    rw [hk₁]
    exact ⟨rfl, rfl, rfl, rfl, rfl, fun i hi => rfl⟩
  have hcolumn : k₁.column.toNat = 0 := by
    rw [hk₁]
    rfl
  have hline := (hstart.foldl rows (status_text_printable hpid eip) (by omega)).newline rows
  have hprintf := @printf_status rows stale pid hmin eip k₁
  rw [List.foldl_append, List.foldl_cons, List.foldl_nil] at hprintf
  generalize ((status_text pid eip).foldl (Console.putchar rows) k₁).putchar rows 0x0A#8 = k₂ at hline hprintf
  rw [hk₁] at hprintf hline
  refine ⟨_, congrArg (· >>= _) hprintf, ?_⟩
  exact ⟨hline.column_store, hline.row_store, vga_makeColor_split hk.default_color, hk.should_update_cursor.symm,
    hline.vga_buffer, hline.ports⟩

/-! ## The process that goes on -/

section Current

variable {α : Type} [DecidableEq α] {s : Sched.State α} {a : α}

/-- A process with a successor hands over to a process. -/
theorem rotate_current (hnext : s.next a ≠ none) :
    ∃ s' p, Sched.rotate s a = some (s', p) ∧ s'.p_current = some p := by
  have hlink : (Sched.link_last s a).next a ≠ none := by
    unfold Sched.link_last
    cases s.p_last with
    | none => exact hnext
    | some z =>
      dsimp only
      rw [Sched.next_set_next, Function.update_apply]
      split
      · exact Option.some_ne_none a
      · exact hnext
  obtain ⟨p, hp⟩ := Option.ne_none_iff_exists'.mp hlink
  -- the next process is the one that is linked behind `a`
  exact ⟨_, p, congrArg (Option.map _) hp, hp⟩

/-- A preemption returns, and leaves a process to go on if it found one. -/
theorem preempt_current (s : Sched.State α) (state : StackState) :
    ∃ r, Sched.scheduler_preempt s state = some r ∧
      (s.p_current = none ∨ s.is_schedueling_proc ∨ ∃ p, r.1.p_current = some p) := by
  unfold Sched.scheduler_preempt
  cases hcurrent : s.p_current with
  | none => exact ⟨_, rfl, .inl rfl⟩
  | some a =>
    dsimp only
    split
    · rename_i hbusy
      exact ⟨_, rfl, .inr (.inl hbusy)⟩
    split
    · exact ⟨_, rfl, .inr (.inr ⟨a, hcurrent⟩)⟩
    · rename_i hnext
      have hsaved : (Sched.save_registers s a state).next a ≠ none := by
        rw [Sched.next_save_registers]
        exact hnext
      obtain ⟨s', p, hrotate, hp⟩ := rotate_current hsaved
      rw [hrotate]
      exact ⟨_, rfl, .inr (.inr ⟨p, hp⟩)⟩

end Current

/-- **The status line is invisible.** On a terminal that printing can reach, every call of `scheduler_preempt` where
the process that goes on has no negative id returns, and leaves the position, the colour, the update flag and the
rows behind the first one as they were, with nothing sent to the hardware cursor. -/
theorem preempt_invisible {α : Type} [DecidableEq α] (rows : Screen → Screen) (stale : Stale) (pid : α → BitVec 32)
    (s : Sched.State α) (state : StackState) (k : Console) (hk : Printing k.toTerminal)
    (hpid : ∀ r p, Sched.scheduler_preempt s state = some r → r.1.p_current = some p → 0 ≤ (pid p).toInt) :
    ∃ r k', scheduler_preempt rows stale pid s state k = some (r, .ok k') ∧ Invisible k k' := by
  obtain ⟨r, hpreempt, hcurrent⟩ := preempt_current s state
  unfold scheduler_preempt preempt_prints
  rw [hpreempt, Option.map_some]
  split
  · exact ⟨r, k, rfl, rfl, rfl, rfl, rfl, fun i hi => rfl, rfl⟩
  · rename_i hprints
    rw [not_or] at hprints
    obtain hnone | hbusy | ⟨p, hp⟩ := hcurrent
    · exact absurd hnone hprints.1
    · exact absurd hbusy hprints.2
    · obtain ⟨k', hline, hinvisible⟩ := @status_line_invisible rows stale k (pid p) (hpid r p hpreempt hp)
        (r.1.proc p).regs.state.eip hk
      rw [hp]
      dsimp only
      rw [hline]
      exact ⟨r, k', rfl, hinvisible⟩

/-- A process that is scheduled first. -/
def first_process : Sched.State Nat :=
  Sched.schedule_process ⟨none, none, false, fun _ => Sched.new_process 0x1000#32 0x2000#32 0#32 false, 0#32⟩ 0

/-- Locals that are zero before `printf`. -/
def zero_locals : Stale := ⟨0#32, fun _ => 0#32, fun _ => 0#8⟩

/-- On the screen at boot the line is that of process 0. -/
theorem preempt_invisible_first : ∃ r k',
    scheduler_preempt id zero_locals (fun _ => 0#32) first_process StackState.zero console_init = some (r, .ok k') ∧
      Invisible console_init k' :=
  preempt_invisible id zero_locals (fun _ => 0#32) first_process StackState.zero console_init ⟨rfl, by decide⟩
    fun _ _ _ _ => by decide

end Condor.Tty
