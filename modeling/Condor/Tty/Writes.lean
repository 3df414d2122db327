import Condor.Tty.Terminal

/-!
# Where the terminal writes

The cursor stays in rows 0 to 24 and columns 0 to 80. A character is written inside
of the screen if it `Fits`: a printable one needs a column below 80, a tab one of
the columns 0 to 76, since it writes four cells and wraps behind column 80 only, and
a backspace a column above 0. So the writes of a run are inside of the screen
exactly when each character that is handled fits at its column (`writes_inside_iff`).
-/

namespace Condor.Tty

open Libc

variable {t : Terminal} {x y : BitVec 8} {c : Byte} {color uc : BitVec 16}

/-- The positions and the stores that the screen has. -/
structure Write.Inside (w : Write) : Prop where
  column : w.x.toNat < 80
  row : w.y.toNat < 25
  index : w.index.toNat < 2000

/-- The row and the stored position are on the screen. -/
structure InRows (t : Terminal) : Prop where
  row : t.row.toNat < 25
  column_store : t.column_store.toNat ≤ 80
  row_store : t.row_store.toNat < 25

/-- A cursor the code can reach. -/
structure Good (t : Terminal) : Prop extends InRows t where
  column : t.column.toNat ≤ 80

/-- A character that is written inside of the screen. -/
def Fits (t : Terminal) (c : Byte) : Prop :=
  if c = 0x0A#8 then True
  else if c = 0x09#8 then t.column.toNat ≤ 76
  else if c = 0x08#8 then 1 ≤ t.column.toNat
  else t.column.toNat < 80

/-! ## One write -/

theorem inside_iff (x y : BitVec 8) (uc : BitVec 16) :
    Write.Inside ⟨x, y, x.setWidth 16 + y.setWidth 16 * 80#16, uc⟩ ↔ x.toNat < 80 ∧ y.toNat < 25 := by
  constructor
  · intro h
    exact ⟨h.column, h.row⟩
  · rintro ⟨hx, hy⟩
    refine ⟨hx, hy, ?_⟩
    have hx16 : (x.setWidth 16).toNat = x.toNat := BitVec.toNat_setWidth_of_le (by decide)
    have hy16 : (y.setWidth 16).toNat = y.toNat := BitVec.toNat_setWidth_of_le (by decide)
    have hmul : (y.setWidth 16 * 80#16).toNat = y.toNat * 80 := by
      rw [BitVec.toNat_mul_of_lt (by rw [hy16]; show y.toNat * 80 < 65536; omega), hy16]
      rfl
    have hadd : (x.setWidth 16 + y.setWidth 16 * 80#16).toNat = x.toNat + y.toNat * 80 := by
      rw [BitVec.toNat_add_of_lt (by rw [hmul, hx16]; omega), hmul, hx16]
    show (x.setWidth 16 + y.setWidth 16 * 80#16).toNat < 2000
    omega

/-- All writes of a terminal are inside of the screen. -/
def AllInside (t : Terminal) : Prop := ∀ w ∈ t.writes, w.Inside

theorem allInside_putEntryAt (t : Terminal) (x : BitVec 8) (uc : BitVec 16) (hy : y.toNat < 25) :
    AllInside (t.putEntryAt x y uc) ↔ AllInside t ∧ x.toNat < 80 := by
  unfold AllInside Terminal.putEntryAt
  rw [List.forall_mem_append, List.forall_mem_singleton, inside_iff]
  simp only [hy, and_true]

/-! ## The steps of the cursor -/

theorem Good.next_row (h : InRows t) : Good t.next_row := by
  have hrow := h.row
  have hnext : (t.row + 1#8).toNat = t.row.toNat + 1 :=
    BitVec.toNat_add_of_lt (by show _ + 1 < 256; omega)
  unfold Terminal.next_row
  dsimp only
  split
  · -- the row is 24 and stays
    refine ⟨⟨?_, h.column_store, h.row_store⟩, Nat.zero_le _⟩
    show (t.row + 1#8 - 1#8).toNat < 25
    rw [BitVec.add_sub_cancel]
    exact hrow
  · rename_i hlast
    refine ⟨⟨?_, h.column_store, h.row_store⟩, Nat.zero_le _⟩
    exact Nat.lt_of_not_le hlast

theorem column_next_row (t : Terminal) : t.next_row.column = 0#8 := by
  unfold Terminal.next_row
  dsimp only
  split <;> rfl

theorem writes_next_row (t : Terminal) : t.next_row.writes = t.writes := by
  unfold Terminal.next_row
  dsimp only
  split <;> rfl

/-- Moving the cursor brings its column back to 80 at most. -/
theorem Good.moveCursor (h : InRows t) (hy : y.toNat < 25) : Good (t.moveCursor x y) := by
  have hx : (if VGA_WIDTH < x.toNat then 80#8 else x).toNat ≤ 80 := by
    split
    · decide
    · rename_i hle
      exact Nat.le_of_not_lt hle
  unfold Terminal.moveCursor
  dsimp only
  split <;> exact ⟨⟨hy, h.column_store, h.row_store⟩, hx⟩

theorem writes_moveCursor (t : Terminal) (x y : BitVec 8) : (t.moveCursor x y).writes = t.writes := by
  unfold Terminal.moveCursor
  dsimp only
  split <;> rfl

theorem toNat_next_column (h : t.column.toNat ≤ 80) : (t.column + 1#8).toNat = t.column.toNat + 1 :=
  BitVec.toNat_add_of_lt (by show _ + 1 < 256; omega)

/-! ## Tabs, backspaces and printable characters -/

theorem tab_column_spec (h : Good t) :
    Good t.tab_column ∧ (AllInside t.tab_column ↔ AllInside t ∧ t.column.toNat < 80) ∧
      t.tab_column.column.toNat = if t.column.toNat = 80 then 0 else t.column.toNat + 1 := by
  have hcolumn := h.column
  have hnext := toNat_next_column hcolumn
  have hwrite := allInside_putEntryAt t t.column t.blank h.row
  unfold Terminal.tab_column
  dsimp only
  split
  · rename_i hlast
    have heq : t.column.toNat = 80 := by
      have : 80 < (t.column + 1#8).toNat := hlast
      omega
    refine ⟨Good.next_row ⟨h.row, h.column_store, h.row_store⟩, ?_, ?_⟩
    · rw [← hwrite]
      unfold AllInside
      rw [writes_next_row]
    · rw [column_next_row, if_pos heq]
      rfl
  · rename_i hlast
    have hle : (t.column + 1#8).toNat ≤ 80 := Nat.le_of_not_lt hlast
    refine ⟨⟨⟨h.row, h.column_store, h.row_store⟩, hle⟩, hwrite, ?_⟩
    rw [if_neg (by omega)]
    exact hnext

theorem tab_spec (h : Good t) : Good t.tab_column.tab_column.tab_column.tab_column ∧
    (AllInside t.tab_column.tab_column.tab_column.tab_column ↔ AllInside t ∧ t.column.toNat ≤ 76) := by
  have hcolumn := h.column
  obtain ⟨h1, hinside1, hcolumn1⟩ := tab_column_spec h
  obtain ⟨h2, hinside2, hcolumn2⟩ := tab_column_spec h1
  obtain ⟨h3, hinside3, hcolumn3⟩ := tab_column_spec h2
  obtain ⟨h4, hinside4, -⟩ := tab_column_spec h3
  refine ⟨h4, ?_⟩
  rw [hinside4, hinside3, hinside2, hinside1, hcolumn3, hcolumn2, hcolumn1, and_assoc, and_assoc, and_assoc]
  refine and_congr_right fun _ => ?_
  split_ifs <;> omega

theorem backspace_spec (h : Good t) :
    InRows t.backspace ∧ (AllInside t.backspace ↔ AllInside t ∧ 1 ≤ t.column.toNat) := by
  have hcolumn := h.column
  refine ⟨⟨h.row, h.column_store, h.row_store⟩, ?_⟩
  unfold Terminal.backspace
  refine (allInside_putEntryAt _ _ _ h.row).trans (and_congr_right fun _ => ?_)
  rw [BitVec.toNat_sub]
  show (2 ^ 8 - 1 + t.column.toNat) % 2 ^ 8 < 80 ↔ _
  omega

theorem put_spec (h : Good t) (c : Byte) (color : BitVec 16) :
    Good (t.put c color) ∧ (AllInside (t.put c color) ↔ AllInside t ∧ t.column.toNat < 80) := by
  have hcolumn := h.column
  have hnext := toNat_next_column hcolumn
  have hwrite := allInside_putEntryAt t t.column (vga_makeEntry c (color.setWidth 8)) h.row
  unfold Terminal.put
  dsimp only
  split
  · refine ⟨Good.next_row ⟨h.row, h.column_store, h.row_store⟩, ?_⟩
    rw [← hwrite]
    unfold AllInside
    rw [writes_next_row]
  · rename_i hlast
    exact ⟨⟨⟨h.row, h.column_store, h.row_store⟩, (Nat.lt_of_not_le hlast).le⟩, hwrite⟩

/-- The position after a character that was handled without `put`. -/
def settled (t : Terminal) : Terminal := t.moveCursor t.column t.row

theorem specialChar_newline (t : Terminal) : t.specialChar 0x0A#8 = (settled t.next_row, true) := by
  unfold Terminal.specialChar
  rw [show Terminal.checkChar 0x0A#8 = 1#8 from rfl]
  dsimp only
  rw [if_pos (by decide), if_pos (by decide)]
  rfl

theorem specialChar_tab (t : Terminal) :
    t.specialChar 0x09#8 = (settled t.tab_column.tab_column.tab_column.tab_column, true) := by
  unfold Terminal.specialChar
  rw [show Terminal.checkChar 0x09#8 = 3#8 from rfl]
  dsimp only
  rw [if_pos (by decide), if_neg (by decide), if_pos (by decide)]
  rfl

theorem specialChar_backspace (t : Terminal) : t.specialChar 0x08#8 = (settled t.backspace, true) := by
  unfold Terminal.specialChar
  rw [show Terminal.checkChar 0x08#8 = 5#8 from rfl]
  dsimp only
  rw [if_pos (by decide), if_neg (by decide), if_neg (by decide), if_pos (by decide)]
  rfl

theorem specialChar_spec (h : Good t) (c : Byte) :
    (t.specialChar c = (t, false) ∧ (Fits t c ↔ t.column.toNat < 80)) ∨
      ∃ t', t.specialChar c = (t', true) ∧ Good t' ∧ (AllInside t' ↔ AllInside t ∧ Fits t c) := by
  have hmoved (t' : Terminal) (h' : InRows t') :
      Good (settled t') ∧ (AllInside (settled t') ↔ AllInside t') := by
    refine ⟨Good.moveCursor h' h'.row, ?_⟩
    unfold AllInside settled
    rw [writes_moveCursor]
  unfold Fits
  by_cases hnewline : c = 0x0A#8
  · obtain ⟨hgood, hinside⟩ := hmoved _ (Good.next_row h.toInRows).toInRows
    rw [hnewline, specialChar_newline]
    refine .inr ⟨_, rfl, hgood, hinside.trans ?_⟩
    unfold AllInside
    rw [writes_next_row, if_pos rfl, and_true]
  by_cases htab : c = 0x09#8
  · obtain ⟨hgood, hinside⟩ := hmoved _ (tab_spec h).1.toInRows
    rw [htab, specialChar_tab]
    refine .inr ⟨_, rfl, hgood, hinside.trans ?_⟩
    rw [if_neg (by decide), if_pos rfl]
    exact (tab_spec h).2
  by_cases hback : c = 0x08#8
  · obtain ⟨hgood, hinside⟩ := hmoved _ (backspace_spec h).1
    rw [hback, specialChar_backspace]
    refine .inr ⟨_, rfl, hgood, hinside.trans ?_⟩
    rw [if_neg (by decide), if_neg (by decide), if_pos rfl]
    exact (backspace_spec h).2
  · refine .inl ⟨?_, ?_⟩
    · unfold Terminal.specialChar Terminal.checkChar
      rw [if_neg hnewline, if_neg htab, if_neg hback]
      rfl
    · rw [if_neg hnewline, if_neg htab, if_neg hback]

/-- A character of a string. -/
theorem string_char_spec (h : Good t) (c : Byte) (color : BitVec 16) :
    Good (t.string_char c color) ∧ (AllInside (t.string_char c color) ↔ AllInside t ∧ Fits t c) := by
  unfold Terminal.string_char
  obtain ⟨hspecial, hfits⟩ | ⟨t', hspecial, hgood, hinside⟩ := specialChar_spec h c
  · rw [hspecial, hfits]
    exact put_spec h c color
  · rw [hspecial]
    exact ⟨hgood, hinside⟩

theorem putchar_Color_spec (h : Good t) (c : Byte) (color : BitVec 16) :
    Good (t.putchar_Color c color) ∧ (AllInside (t.putchar_Color c color) ↔ AllInside t ∧ Fits t c) := by
  unfold Terminal.putchar_Color
  obtain ⟨hspecial, hfits⟩ | ⟨t', hspecial, hgood, hinside⟩ := specialChar_spec h c
  · obtain ⟨hgood, hinside⟩ := put_spec h c color
    rw [hspecial, hfits, ← hinside]
    refine ⟨Good.moveCursor hgood.toInRows hgood.row, ?_⟩
    unfold AllInside
    dsimp only
    rw [writes_moveCursor]
  · rw [hspecial]
    exact ⟨hgood, hinside⟩

/-! ## Runs -/

/-- The characters that the loop over a string handles fit, each at its column. -/
def string_fits (string : List Byte) (color : BitVec 16) : Nat → BitVec 16 → Terminal → Prop
  | 0, _, _ => True
  | fuel + 1, i, t =>
    if h : i.toNat < string.length then
      Fits t string[i.toNat] ∧ string_fits string color fuel (i + 1#16)
        (t.string_char string[i.toNat] color)
    else True

def op_fits (fuel : Nat) (t : Terminal) : Op → Prop
  | .putchar uc => Fits t uc
  | .puts string => string_fits string.bytes t.default_color fuel 0#16 t
  | .putchar_Color uc _ => Fits t uc
  | .puts_Color string color => string_fits string.bytes color fuel 0#16 t
  | .storePosition | .restorePosition | .moveCursor _ => True

/-- Every character that a run handles fits at the column of the cursor. -/
def run_fits (fuel : Nat) (t : Terminal) : List Op → Prop
  | [] => True
  | op :: ops => op_fits fuel t op ∧ ((exec fuel t op).2 = true → run_fits fuel (exec fuel t op).1 ops)

theorem puts_loop_spec (string : List Byte) (color : BitVec 16) (fuel : Nat) (i : BitVec 16)
    (h : Good t) :
    Good (Terminal.puts_loop string color fuel i t).1 ∧
      (AllInside (Terminal.puts_loop string color fuel i t).1 ↔
        AllInside t ∧ string_fits string color fuel i t) := by
  induction fuel generalizing i t with
  | zero => exact ⟨h, (iff_of_eq (and_true _)).symm⟩
  | succ fuel ih =>
    unfold Terminal.puts_loop string_fits
    split
    · rename_i hi
      obtain ⟨hgood, hinside⟩ := string_char_spec h string[i.toNat] color
      obtain ⟨hgood', hinside'⟩ := ih (i + 1#16) hgood
      exact ⟨hgood', by rw [hinside', hinside, and_assoc]⟩
    · exact ⟨h, (iff_of_eq (and_true _)).symm⟩

theorem puts_Color_spec (h : Good t) (fuel : Nat) (string : CString) (color : BitVec 16) :
    Good (t.puts_Color fuel string color).1 ∧ (AllInside (t.puts_Color fuel string color).1 ↔
      AllInside t ∧ string_fits string.bytes color fuel 0#16 t) := by
  obtain ⟨hgood, hinside⟩ := puts_loop_spec string.bytes color fuel 0#16 h
  unfold Terminal.puts_Color
  split
  · rename_i t' hloop
    rw [hloop] at hgood hinside
    refine ⟨Good.moveCursor hgood.toInRows hgood.row, ?_⟩
    rw [← hinside]
    unfold AllInside
    rw [writes_moveCursor]
  · rename_i t' hloop
    rw [hloop] at hgood hinside
    exact ⟨hgood, hinside⟩

theorem exec_spec (h : Good t) (fuel : Nat) (op : Op) :
    Good (exec fuel t op).1 ∧ (AllInside (exec fuel t op).1 ↔ AllInside t ∧ op_fits fuel t op) := by
  cases op with
  | putchar uc => exact putchar_Color_spec h uc t.default_color
  | puts string => exact puts_Color_spec h fuel string t.default_color
  | putchar_Color uc color => exact putchar_Color_spec h uc color
  | puts_Color string color => exact puts_Color_spec h fuel string color
  | storePosition => exact ⟨⟨⟨h.row, h.column, h.row⟩, h.column⟩, (iff_of_eq (and_true _)).symm⟩
  | restorePosition =>
    exact ⟨⟨⟨h.row_store, h.column_store, h.row_store⟩, h.column_store⟩, (iff_of_eq (and_true _)).symm⟩
  | moveCursor p =>
    refine ⟨Good.moveCursor h.toInRows p.row_lt, ?_⟩
    unfold AllInside exec op_fits
    rw [writes_moveCursor, and_true]

theorem run_spec (h : Good t) (fuel : Nat) (ops : List Op) :
    AllInside (run fuel t ops) ↔ AllInside t ∧ run_fits fuel t ops := by
  induction ops generalizing t with
  | nil => exact (iff_of_eq (and_true _)).symm
  | cons op ops ih =>
    obtain ⟨hgood, hinside⟩ := exec_spec h fuel op
    unfold run run_fits
    split
    · rename_i hreturns
      rw [ih hgood, hinside, and_assoc, imp_iff_right hreturns]
    · rename_i hruns
      rw [hinside, iff_true_intro fun hreturns => absurd hreturns hruns, and_true]

/-- **Writes on the screen.** After any calls, and however far the last one has got, all writes of
`terminal_putEntryAt` went to a position on the screen if and only if every character that was handled fits
at its column. -/
theorem writes_inside_iff (fuel : Nat) (ops : List Op) :
    (∀ w ∈ (run fuel terminal_init ops).writes, w.Inside) ↔ run_fits fuel terminal_init ops := by
  have hinit : Good terminal_init := ⟨⟨by decide, by decide, by decide⟩, by decide⟩
  have hnone : AllInside terminal_init := fun w hw => absurd hw List.not_mem_nil
  exact (run_spec hinit fuel ops).trans (and_iff_right hnone)

/-- A backspace at the start of a line is written behind the end of it. -/
theorem backspace_outside :
    ¬ ∀ w ∈ (run 0 terminal_init [.putchar 0x08#8]).writes, w.Inside := fun h =>
  absurd (h ⟨255#8, 1#8, 335#16, 0x0720#16⟩ (by decide)).column (by decide)

end Condor.Tty
