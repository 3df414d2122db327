import Condor.Libc.Format

/-!
# The text terminal

The state of `tty.c` and the functions that print. The contents of the screen are
left out: `writes` are the stores of `terminal_putEntryAt`, each with the position
it was called with, and `ports` what was sent to the cursor. A position on the
screen has column < 80 and row < 25; the column of the cursor can be 80 as well,
which `terminal_moveCursor` allows.
-/

namespace Condor.Tty

open Libc

def VGA_WIDTH : Nat := 80
def VGA_HEIGHT : Nat := 25
def VGA_BLACK : BitVec 8 := 0#8
def VGA_GREY : BitVec 8 := 7#8

def vga_makeColor (foreground background : BitVec 8) : BitVec 8 := background <<< 4 ||| foreground

def vga_makeEntry (uc : Byte) (color : BitVec 8) : BitVec 16 := uc.setWidth 16 ||| color.setWidth 16 <<< 8

/-- `vga_buffer[index] = entry`, called with `x` and `y`. -/
structure Write where
  x : BitVec 8
  y : BitVec 8
  index : BitVec 16
  entry : BitVec 16
  deriving DecidableEq, Repr

structure Terminal where
  column : BitVec 8
  row : BitVec 8
  column_store : BitVec 8
  row_store : BitVec 8
  should_update_cursor : BitVec 8
  default_color : BitVec 16
  writes : List Write
  ports : List (BitVec 16 × BitVec 8)
  deriving DecidableEq, Repr

namespace Terminal

def putEntryAt (t : Terminal) (x y : BitVec 8) (uc : BitVec 16) : Terminal :=
  { t with writes := t.writes ++ [⟨x, y, x.setWidth 16 + y.setWidth 16 * 80#16, uc⟩] }

/-- The lines move up, and so does the cursor. -/
def scroll (t : Terminal) : Terminal := { t with column := 0#8, row := t.row - 1#8 }

/-- `if (++terminal_row >= VGA_HEIGHT) terminal_scroll();` after the column was set to 0. -/
def next_row (t : Terminal) : Terminal :=
  let t := { t with column := 0#8, row := t.row + 1#8 }
  if VGA_HEIGHT ≤ t.row.toNat then t.scroll else t

def moveCursor (t : Terminal) (x y : BitVec 8) : Terminal :=
  let x := if VGA_WIDTH < x.toNat then 80#8 else x
  let t := { t with column := x, row := y }
  if t.should_update_cursor = 0#8 then t
  else
    let position : BitVec 16 := x.setWidth 16 + y.setWidth 16 * 80#16
    { t with ports := t.ports ++
        [(0x3D4#16, 0x0F#8), (0x3D5#16, position.setWidth 8), (0x3D4#16, 0x0E#8),
         (0x3D5#16, (position >>> 8).setWidth 8)] }

def checkChar (c : Byte) : BitVec 8 :=
  if c = 0x0A#8 then 1#8 <<< 0 ||| 1#8
  else if c = 0x09#8 then 1#8 <<< 1 ||| 1#8
  else if c = 0x08#8 then 1#8 <<< 2 ||| 1#8
  else 0#8

/-- The space in the default colour. -/
def blank (t : Terminal) : BitVec 16 := vga_makeEntry (ascii ' ') (t.default_color.setWidth 8)

/-- One column of a tab. -/
def tab_column (t : Terminal) : Terminal :=
  let t := t.putEntryAt t.column t.row t.blank
  let t := { t with column := t.column + 1#8 }
  if VGA_WIDTH < t.column.toNat then t.next_row else t

def backspace (t : Terminal) : Terminal :=
  let t := { t with column := t.column - 1#8 }
  t.putEntryAt t.column t.row t.blank

def specialChar (t : Terminal) (c : Byte) : Terminal × Bool :=
  let flags := checkChar c
  if flags ≠ 0#8 then
    let t :=
      if flags >>> 1 = 0#8 then t.next_row
      else if flags >>> 1 = 1#8 then t.tab_column.tab_column.tab_column.tab_column
      else if flags >>> 2 = 1#8 then t.backspace
      else t
    (t.moveCursor t.column t.row, true)
  else (t, false)

/-- The store of a character and the step to the next column. -/
def put (t : Terminal) (uc : Byte) (color : BitVec 16) : Terminal :=
  let t := t.putEntryAt t.column t.row (vga_makeEntry uc (color.setWidth 8))
  let t := { t with column := t.column + 1#8 }
  if VGA_WIDTH ≤ t.column.toNat then t.next_row else t

def putchar_Color (t : Terminal) (uc : Byte) (color : BitVec 16) : Terminal :=
  match t.specialChar uc with
  | (t, true) => t
  | (t, false) =>
    let t := t.put uc color
    t.moveCursor t.column t.row

def putchar (t : Terminal) (uc : Byte) : Terminal := t.putchar_Color uc t.default_color

/-- A character of a string. -/
def string_char (t : Terminal) (uc : Byte) (color : BitVec 16) : Terminal :=
  match t.specialChar uc with
  | (t, true) => t
  | (t, false) => t.put uc color

/-- `for (uint16_t i = 0; i < strlen(string); i++)`, and if the loop has ended: 16 bits do not reach the
length of every string. -/
def puts_loop (string : List Byte) (color : BitVec 16) : Nat → BitVec 16 → Terminal → Terminal × Bool
  | 0, _, t => (t, false)
  | fuel + 1, i, t =>
    if h : i.toNat < string.length then
      puts_loop string color fuel (i + 1#16) (t.string_char string[i.toNat] color)
    else (t, true)

def puts_Color (t : Terminal) (fuel : Nat) (string : CString) (color : BitVec 16) : Terminal × Bool :=
  match puts_loop string.bytes color fuel 0#16 t with
  | (t, true) => (t.moveCursor t.column t.row, true)
  | (t, false) => (t, false)

def puts (t : Terminal) (fuel : Nat) (string : CString) : Terminal × Bool :=
  t.puts_Color fuel string t.default_color

def storePosition (t : Terminal) : Terminal := { t with column_store := t.column, row_store := t.row }

def restorePosition (t : Terminal) : Terminal := { t with column := t.column_store, row := t.row_store }

end Terminal

/-- `terminal_init` on the static variables at boot. -/
def terminal_init : Terminal where
  column := 0#8
  row := 1#8
  column_store := 0#8
  row_store := 0#8
  should_update_cursor := 1#8
  default_color := (vga_makeColor VGA_GREY VGA_BLACK).setWidth 16
  writes := []
  ports := []

/-- A position on the screen. -/
structure Position where
  x : BitVec 8
  y : BitVec 8
  column_lt : x.toNat < 80
  row_lt : y.toNat < 25

inductive Op where
  | putchar (uc : Byte)
  | puts (string : CString)
  | putchar_Color (uc : Byte) (color : BitVec 16)
  | puts_Color (string : CString) (color : BitVec 16)
  | storePosition
  | restorePosition
  | moveCursor (p : Position)

/-- A call, and if it returns when each loop has `fuel` iterations. -/
def exec (fuel : Nat) (t : Terminal) : Op → Terminal × Bool
  | .putchar uc => (t.putchar uc, true)
  | .puts string => t.puts fuel string
  | .putchar_Color uc color => (t.putchar_Color uc color, true)
  | .puts_Color string color => t.puts_Color fuel string color
  | .storePosition => (t.storePosition, true)
  | .restorePosition => (t.restorePosition, true)
  | .moveCursor p => (t.moveCursor p.x p.y, true)

/-- The calls one after the other, as long as they return. -/
def run (fuel : Nat) (t : Terminal) : List Op → Terminal
  | [] => t
  | op :: ops => if (exec fuel t op).2 then run fuel (exec fuel t op).1 ops else (exec fuel t op).1

end Condor.Tty
