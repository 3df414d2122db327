import Condor.Tty.Writes

/-!
# The terminal and its screen

`Console` adds the contents of `vga_buffer` to the terminal. What the assembly of
`terminal_scroll` does to them is a parameter (`rows`). The cursor and the stores
are those of `Terminal` (`toTerminal_puts_Color`).

A string is printed like its characters one after the other: the code for one
character moves the cursor each time, the code for a string at its end and at
special characters only. That is seen at the ports, but nowhere else, since no
printable character leaves the cursor at a column that it would bring back
(`puts_eq_putchars`).
-/

namespace Condor.Tty

open Libc

/-- `vga_buffer`, by index. -/
abbrev Screen := BitVec 16 → BitVec 16

structure Console extends Terminal where
  vga_buffer : Screen

namespace Console

variable (rows : Screen → Screen)

def putEntryAt (k : Console) (x y : BitVec 8) (uc : BitVec 16) : Console where
  toTerminal := k.toTerminal.putEntryAt x y uc
  vga_buffer := Function.update k.vga_buffer (x.setWidth 16 + y.setWidth 16 * 80#16) uc

def scroll (k : Console) : Console where
  toTerminal := k.toTerminal.scroll
  vga_buffer := rows k.vga_buffer

def next_row (k : Console) : Console :=
  let k := { k with column := 0#8, row := k.row + 1#8 }
  if VGA_HEIGHT ≤ k.row.toNat then k.scroll rows else k

def moveCursor (k : Console) (x y : BitVec 8) : Console := { k with toTerminal := k.toTerminal.moveCursor x y }

def tab_column (k : Console) : Console :=
  let k := k.putEntryAt k.column k.row k.blank
  let k := { k with column := k.column + 1#8 }
  if VGA_WIDTH < k.column.toNat then k.next_row rows else k

def backspace (k : Console) : Console :=
  let k := { k with column := k.column - 1#8 }
  k.putEntryAt k.column k.row k.blank

/-- What a special character does before the cursor is moved. -/
def special (k : Console) (flags : BitVec 8) : Console :=
  if flags >>> 1 = 0#8 then k.next_row rows
  else if flags >>> 1 = 1#8 then (((k.tab_column rows).tab_column rows).tab_column rows).tab_column rows
  else if flags >>> 2 = 1#8 then k.backspace
  else k

def specialChar (k : Console) (c : Byte) : Console × Bool :=
  let flags := Terminal.checkChar c
  if flags ≠ 0#8 then
    let k := k.special rows flags
    (k.moveCursor k.column k.row, true)
  else (k, false)

/-- The store of a character and the step to the next column. -/
def put (k : Console) (uc : Byte) (color : BitVec 16) : Console :=
  let k := k.putEntryAt k.column k.row (vga_makeEntry uc (color.setWidth 8))
  let k := { k with column := k.column + 1#8 }
  if VGA_WIDTH ≤ k.column.toNat then k.next_row rows else k

def putchar_Color (k : Console) (uc : Byte) (color : BitVec 16) : Console :=
  match k.specialChar rows uc with
  | (k, true) => k
  | (k, false) =>
    let k := k.put rows uc color
    k.moveCursor k.column k.row

def putchar (k : Console) (uc : Byte) : Console := k.putchar_Color rows uc k.default_color

/-- A character of a string. -/
def string_char (k : Console) (uc : Byte) (color : BitVec 16) : Console :=
  match k.specialChar rows uc with
  | (k, true) => k
  | (k, false) => k.put rows uc color

/-- `for (uint16_t i = 0; i < strlen(string); i++)` in the colour `color`, and if the loop has ended. -/
def puts_loop (string : List Byte) (color : Console → BitVec 16) : Nat → BitVec 16 → Console → Console × Bool
  | 0, _, k => (k, false)
  | fuel + 1, i, k =>
    if h : i.toNat < string.length then
      puts_loop string color fuel (i + 1#16) (k.string_char rows string[i.toNat] (color k))
    else (k, true)

/-- The loop and what comes behind it. -/
def puts_in (k : Console) (fuel : Nat) (string : CString) (color : Console → BitVec 16) : Console × Bool :=
  match puts_loop rows string.bytes color fuel 0#16 k with
  | (k, true) => (k.moveCursor k.column k.row, true)
  | (k, false) => (k, false)

def puts_Color (k : Console) (fuel : Nat) (string : CString) (color : BitVec 16) : Console × Bool :=
  k.puts_in rows fuel string fun _ => color

def puts (k : Console) (fuel : Nat) (string : CString) : Console × Bool :=
  k.puts_in rows fuel string fun k => k.default_color

end Console

variable {rows : Screen → Screen} {k k' : Console} {c : Byte} {color : BitVec 16}

/-! ## The terminal of the console -/

theorem toTerminal_next_row (k : Console) : (k.next_row rows).toTerminal = k.toTerminal.next_row := by
  unfold Console.next_row Terminal.next_row
  rw [apply_ite Console.toTerminal]
  rfl

theorem toTerminal_tab_column (k : Console) : (k.tab_column rows).toTerminal = k.toTerminal.tab_column := by
  unfold Console.tab_column Terminal.tab_column
  rw [apply_ite Console.toTerminal, toTerminal_next_row]
  rfl

theorem toTerminal_put (k : Console) (c : Byte) (color : BitVec 16) :
    (k.put rows c color).toTerminal = k.toTerminal.put c color := by
  unfold Console.put Terminal.put
  rw [apply_ite Console.toTerminal, toTerminal_next_row]
  rfl

theorem toTerminal_special (k : Console) (flags : BitVec 8) : (k.special rows flags).toTerminal =
    if flags >>> 1 = 0#8 then k.toTerminal.next_row
    else if flags >>> 1 = 1#8 then k.toTerminal.tab_column.tab_column.tab_column.tab_column
    else if flags >>> 2 = 1#8 then k.toTerminal.backspace
    else k.toTerminal := by
  unfold Console.special
  simp only [apply_ite Console.toTerminal, toTerminal_next_row, toTerminal_tab_column]
  rfl

theorem toTerminal_specialChar (k : Console) (c : Byte) :
    k.toTerminal.specialChar c = ((k.specialChar rows c).1.toTerminal, (k.specialChar rows c).2) := by
  unfold Console.specialChar Terminal.specialChar
  dsimp only
  rw [← @toTerminal_special rows]
  split <;> rfl

theorem toTerminal_string_char (k : Console) (c : Byte) (color : BitVec 16) :
    (k.string_char rows c color).toTerminal = k.toTerminal.string_char c color := by
  unfold Console.string_char Terminal.string_char
  rw [@toTerminal_specialChar rows]
  cases hspecial : k.specialChar rows c with
  | mk k' special =>
    cases special with
    | true => rfl
    | false => exact toTerminal_put k' c color

theorem toTerminal_puts_loop (string : List Byte) (color : BitVec 16) (fuel : Nat) (i : BitVec 16) (k : Console) :
    Terminal.puts_loop string color fuel i k.toTerminal =
      ((k.puts_loop rows string (fun _ => color) fuel i).1.toTerminal,
        (k.puts_loop rows string (fun _ => color) fuel i).2) := by
  induction fuel generalizing i k with
  | zero => rfl
  | succ fuel ih =>
    unfold Console.puts_loop Terminal.puts_loop
    split
    · rw [← toTerminal_string_char]
      exact ih (i + 1#16) _
    · rfl

/-- The cursor and the stores of the console are those of its terminal. -/
theorem toTerminal_puts_Color (k : Console) (fuel : Nat) (string : CString) (color : BitVec 16) :
    k.toTerminal.puts_Color fuel string color =
      ((k.puts_Color rows fuel string color).1.toTerminal, (k.puts_Color rows fuel string color).2) := by
  unfold Terminal.puts_Color Console.puts_Color Console.puts_in
  rw [@toTerminal_puts_loop rows]
  cases hloop : k.puts_loop rows string.bytes (fun _ => color) fuel 0#16 with
  | mk k' ended => cases ended <;> rfl

/-! ## What the ports do not show -/

/-- The console without what was sent to the cursor. -/
def quiet (k : Console) : Console := { k with ports := [] }

/-- What moving the cursor to where it is does to it. -/
def clamp (k : Console) : Console := { k with column := if VGA_WIDTH < k.column.toNat then 80#8 else k.column }

theorem clamp_eq (h : k.column.toNat ≤ 80) : clamp k = k := by
  unfold clamp
  rw [if_neg (show ¬ VGA_WIDTH < k.column.toNat from Nat.not_lt.mpr h)]

theorem quiet_settled (k : Console) : quiet (k.moveCursor k.column k.row) = clamp (quiet k) := by
  unfold Console.moveCursor Terminal.moveCursor clamp
  dsimp only
  split <;> rfl

theorem quiet_next_row (k : Console) : quiet (k.next_row rows) = (quiet k).next_row rows := by
  unfold Console.next_row
  rw [apply_ite quiet]
  rfl

theorem quiet_tab_column (k : Console) : quiet (k.tab_column rows) = (quiet k).tab_column rows := by
  unfold Console.tab_column
  rw [apply_ite quiet, quiet_next_row]
  rfl

theorem quiet_special (k : Console) (flags : BitVec 8) :
    quiet (k.special rows flags) = (quiet k).special rows flags := by
  unfold Console.special
  simp only [apply_ite quiet, quiet_next_row, quiet_tab_column]
  rfl

theorem quiet_put (k : Console) (c : Byte) (color : BitVec 16) :
    quiet (k.put rows c color) = (quiet k).put rows c color := by
  unfold Console.put
  rw [apply_ite quiet, quiet_next_row]
  rfl

/-! ## One character -/

theorem quiet_putchar_Color (k : Console) (c : Byte) (color : BitVec 16) :
    quiet (k.putchar_Color rows c color) =
      if Terminal.checkChar c ≠ 0#8 then clamp ((quiet k).special rows (Terminal.checkChar c))
      else clamp ((quiet k).put rows c color) := by
  unfold Console.putchar_Color Console.specialChar
  dsimp only
  by_cases hspecial : Terminal.checkChar c ≠ 0#8
  · rw [if_pos hspecial, if_pos hspecial, ← quiet_special]
    exact quiet_settled _
  · rw [if_neg hspecial, if_neg hspecial, ← quiet_put]
    exact quiet_settled _

theorem quiet_string_char (k : Console) (c : Byte) (color : BitVec 16) :
    quiet (k.string_char rows c color) =
      if Terminal.checkChar c ≠ 0#8 then clamp ((quiet k).special rows (Terminal.checkChar c))
      else (quiet k).put rows c color := by
  unfold Console.string_char Console.specialChar
  dsimp only
  by_cases hspecial : Terminal.checkChar c ≠ 0#8
  · rw [if_pos hspecial, if_pos hspecial, ← quiet_special]
    exact quiet_settled _
  · rw [if_neg hspecial, if_neg hspecial, ← quiet_put]

/-- A printable character leaves the cursor in front of the last column's end. -/
theorem column_put_lt (k : Console) (c : Byte) (color : BitVec 16) : (k.put rows c color).column.toNat < 80 := by
  unfold Console.put
  dsimp only
  split
  · rw [toTerminal_next_row, column_next_row]
    decide
  · rename_i hlast
    exact Nat.lt_of_not_le hlast

theorem column_clamp_le (k : Console) : (clamp k).column.toNat ≤ 80 := by
  unfold clamp
  dsimp only
  split
  · exact le_rfl
  · rename_i hle
    exact Nat.le_of_not_lt hle

/-- So a character leaves the same, printed alone or in a string. -/
theorem quiet_char (k : Console) (c : Byte) (color : BitVec 16) :
    quiet (k.string_char rows c color) = quiet (k.putchar_Color rows c color) := by
  rw [quiet_string_char, quiet_putchar_Color, clamp_eq (column_put_lt (quiet k) c color).le]

theorem column_string_char_le (k : Console) (c : Byte) (color : BitVec 16) :
    (k.string_char rows c color).column.toNat ≤ 80 := by
  show (quiet (k.string_char rows c color)).column.toNat ≤ 80
  rw [quiet_string_char]
  split
  · exact column_clamp_le _
  · exact (column_put_lt _ c color).le

/-! ## Strings -/

variable {colorOf : Console → BitVec 16}

theorem quiet_fold (hcolor : ∀ k, colorOf (quiet k) = colorOf k) (string : List Byte) (k : Console) :
    quiet (string.foldl (fun k c => k.string_char rows c (colorOf k)) k) =
      quiet (string.foldl (fun k c => k.putchar_Color rows c (colorOf k)) k) := by
  induction string using List.reverseRecOn with
  | nil => rfl
  | append_singleton string c ih =>
    rw [List.foldl_append, List.foldl_append, List.foldl_cons, List.foldl_cons, List.foldl_nil, List.foldl_nil,
      ← quiet_char, quiet_string_char, quiet_string_char, ih, ← hcolor, ih, hcolor]

theorem column_fold_le (h : k.column.toNat ≤ 80) (string : List Byte) :
    (string.foldl (fun k c => k.string_char rows c (colorOf k)) k).column.toNat ≤ 80 := by
  induction string generalizing k with
  | nil => exact h
  | cons c string ih => exact ih (column_string_char_le k c (colorOf k))

/-- The index reaches the end of a string of less than 65536 characters. -/
theorem puts_loop_eq {string : List Byte} (hlen : string.length < 65536) {fuel : Nat} {i : BitVec 16}
    (hfuel : string.length - i.toNat < fuel) (k : Console) :
    k.puts_loop rows string colorOf fuel i =
      ((string.drop i.toNat).foldl (fun k c => k.string_char rows c (colorOf k)) k, true) := by
  induction fuel generalizing i k with
  | zero => exact absurd hfuel (Nat.not_lt_zero _)
  | succ fuel ih =>
    unfold Console.puts_loop
    split
    · rename_i hi
      have hnext : (i + 1#16).toNat = i.toNat + 1 := BitVec.toNat_add_of_lt (by show _ + 1 < 65536; omega)
      rw [ih (by omega), hnext, List.drop_eq_getElem_cons hi]
      rfl
    · rename_i hi
      rw [List.drop_eq_nil_of_le (Nat.le_of_not_lt hi)]
      rfl

/-- The two consoles have the same screen and cursor. -/
structure SameScreen (k k' : Console) : Prop where
  vga_buffer : k.vga_buffer = k'.vga_buffer
  column : k.column = k'.column
  row : k.row = k'.row

theorem puts_in_eq (hcolor : ∀ k, colorOf (quiet k) = colorOf k) (h : k.column.toNat ≤ 80) {string : CString}
    (hlen : string.bytes.length < 65536) {fuel : Nat} (hfuel : string.bytes.length < fuel) :
    (k.puts_in rows fuel string colorOf).2 = true ∧
      SameScreen (k.puts_in rows fuel string colorOf).1
        (string.bytes.foldl (fun k c => k.putchar_Color rows c (colorOf k)) k) := by
  have hloop := @puts_loop_eq rows colorOf _ hlen fuel 0#16 hfuel k
  have hcolumn := @column_fold_le rows k colorOf h string.bytes
  have hquiet := @quiet_fold rows colorOf hcolor string.bytes k
  rw [show (0#16).toNat = 0 from rfl, List.drop_zero] at hloop
  unfold Console.puts_in
  rw [hloop]
  generalize string.bytes.foldl (fun k c => k.string_char rows c (colorOf k)) k = k₁ at hcolumn hquiet
  generalize string.bytes.foldl (fun k c => k.putchar_Color rows c (colorOf k)) k = k₂ at hquiet
  -- the cursor is moved to where it is
  have hsame : quiet (k₁.moveCursor k₁.column k₁.row) = quiet k₂ := by
    rw [quiet_settled, clamp_eq (show (quiet k₁).column.toNat ≤ 80 from hcolumn), hquiet]
  have hscreen := congrArg Console.vga_buffer hsame
  have hcol := congrArg (fun k : Console => k.column) hsame
  have hrow := congrArg (fun k : Console => k.row) hsame
  exact ⟨rfl, hscreen, hcol, hrow⟩

/-- **Strings.** Where the column is 80 at most, printing a string of less than 65536 characters returns, and
leaves the screen and the cursor as printing its characters one after the other does, in the default colour or
in a given one. -/
theorem puts_eq_putchars (rows : Screen → Screen) (k : Console) (h : k.column.toNat ≤ 80) (string : CString)
    (hlen : string.bytes.length < 65536) (fuel : Nat) (hfuel : string.bytes.length < fuel) :
    ((k.puts rows fuel string).2 = true ∧
      SameScreen (k.puts rows fuel string).1 (string.bytes.foldl (fun k c => k.putchar rows c) k)) ∧
    ∀ color, (k.puts_Color rows fuel string color).2 = true ∧
      SameScreen (k.puts_Color rows fuel string color).1
        (string.bytes.foldl (fun k c => k.putchar_Color rows c color) k) :=
  ⟨puts_in_eq (fun _ => rfl) h hlen hfuel, fun _ => puts_in_eq (fun _ => rfl) h hlen hfuel⟩

/-- The console after `terminal_init`, which clears the screen. -/
def console_init : Console := ⟨terminal_init, fun _ => vga_makeEntry 0#8 7#8⟩

/-- A tab, a letter and a newline, with a screen that does not scroll. -/
theorem puts_eq_putchars_tab :
    let string : CString := ⟨[0x09#8, ascii 'a', 0x0A#8], by decide⟩
    ((console_init.puts id 4 string).2 = true ∧
      SameScreen (console_init.puts id 4 string).1
        (string.bytes.foldl (fun k c => k.putchar id c) console_init)) ∧
    ∀ color, (console_init.puts_Color id 4 string color).2 = true ∧
      SameScreen (console_init.puts_Color id 4 string color).1
        (string.bytes.foldl (fun k c => k.putchar_Color id c color) console_init) :=
  puts_eq_putchars id console_init (by decide) ⟨[0x09#8, ascii 'a', 0x0A#8], by decide⟩ (by decide) 4 (by decide)

end Condor.Tty
