import Mathlib.Data.BitVec

/-!
# Key codes

The key codes, the states of a key and the two tables that translate a scan
code of set 2, plain or after `0xE0`, to a key code. Both tables are read
without a check of the index, so a lookup beyond a table's ends takes what the
memory there holds (`Around`).
-/

namespace Condor.Kbd

def KEY_NONE : BitVec 8 := 0
def KEY_A : BitVec 8 := 1
def KEY_B : BitVec 8 := 2
def KEY_C : BitVec 8 := 3
def KEY_D : BitVec 8 := 4
def KEY_E : BitVec 8 := 5
def KEY_F : BitVec 8 := 6
def KEY_G : BitVec 8 := 7
def KEY_H : BitVec 8 := 8
def KEY_I : BitVec 8 := 9
def KEY_J : BitVec 8 := 10
def KEY_K : BitVec 8 := 11
def KEY_L : BitVec 8 := 12
def KEY_M : BitVec 8 := 13
def KEY_N : BitVec 8 := 14
def KEY_O : BitVec 8 := 15
def KEY_P : BitVec 8 := 16
def KEY_Q : BitVec 8 := 17
def KEY_R : BitVec 8 := 18
def KEY_S : BitVec 8 := 19
def KEY_T : BitVec 8 := 20
def KEY_U : BitVec 8 := 21
def KEY_V : BitVec 8 := 22
def KEY_W : BitVec 8 := 23
def KEY_X : BitVec 8 := 24
def KEY_Y : BitVec 8 := 25
def KEY_Z : BitVec 8 := 26
def KEY_0 : BitVec 8 := 27
def KEY_1 : BitVec 8 := 28
def KEY_2 : BitVec 8 := 29
def KEY_3 : BitVec 8 := 30
def KEY_4 : BitVec 8 := 31
def KEY_5 : BitVec 8 := 32
def KEY_6 : BitVec 8 := 33
def KEY_7 : BitVec 8 := 34
def KEY_8 : BitVec 8 := 35
def KEY_9 : BitVec 8 := 36
def KEY_GRAVE : BitVec 8 := 37
def KEY_DASH : BitVec 8 := 38
def KEY_EQUALS : BitVec 8 := 39
def KEY_BACKSLASH : BitVec 8 := 40
def KEY_SPACE : BitVec 8 := 41
def KEY_TAB : BitVec 8 := 42
def KEY_KP_SLASH : BitVec 8 := 43
def KEY_KP_STAR : BitVec 8 := 44
def KEY_KP_MINUS : BitVec 8 := 45
def KEY_KP_PLUS : BitVec 8 := 46
def KEY_KP_DOT : BitVec 8 := 47
def KEY_KP_0 : BitVec 8 := 48
def KEY_KP_1 : BitVec 8 := 49
def KEY_KP_2 : BitVec 8 := 50
def KEY_KP_3 : BitVec 8 := 51
def KEY_KP_4 : BitVec 8 := 52
def KEY_KP_5 : BitVec 8 := 53
def KEY_KP_6 : BitVec 8 := 54
def KEY_KP_7 : BitVec 8 := 55
def KEY_KP_8 : BitVec 8 := 56
def KEY_KP_9 : BitVec 8 := 57
def KEY_RBRACE : BitVec 8 := 58
def KEY_SEMICOLON : BitVec 8 := 59
def KEY_APOSTROPHE : BitVec 8 := 60
def KEY_COMMA : BitVec 8 := 61
def KEY_DOT : BitVec 8 := 62
def KEY_SLASH : BitVec 8 := 63
def KEY_LBRACE : BitVec 8 := 64
def KEY_BACKSPACE : BitVec 8 := 65
def KEY_ENTER : BitVec 8 := 66
def KEY_KP_ENTER : BitVec 8 := 67
def KEY_CAPS_LOCK : BitVec 8 := 68
def KEY_LSHIFT : BitVec 8 := 69
def KEY_LCTRL : BitVec 8 := 70
def KEY_LGUI : BitVec 8 := 71
def KEY_LALT : BitVec 8 := 72
def KEY_RSHIFT : BitVec 8 := 73
def KEY_RCTRL : BitVec 8 := 74
def KEY_RGUI : BitVec 8 := 75
def KEY_RALT : BitVec 8 := 76
def KEY_APPS : BitVec 8 := 77
def KEY_ESCAPE : BitVec 8 := 78
def KEY_F1 : BitVec 8 := 79
def KEY_F2 : BitVec 8 := 80
def KEY_F3 : BitVec 8 := 81
def KEY_F4 : BitVec 8 := 82
def KEY_F5 : BitVec 8 := 83
def KEY_F6 : BitVec 8 := 84
def KEY_F7 : BitVec 8 := 85
def KEY_F8 : BitVec 8 := 86
def KEY_F9 : BitVec 8 := 87
def KEY_F10 : BitVec 8 := 88
def KEY_F11 : BitVec 8 := 89
def KEY_F12 : BitVec 8 := 90
def KEY_SCROLL_LOCK : BitVec 8 := 92
def KEY_PAUSE : BitVec 8 := 93
def KEY_INSERT : BitVec 8 := 94
def KEY_HOME : BitVec 8 := 95
def KEY_PG_UP : BitVec 8 := 96
def KEY_DELETE : BitVec 8 := 97
def KEY_END : BitVec 8 := 98
def KEY_PG_DOWN : BitVec 8 := 99
def KEY_U_ARROW : BitVec 8 := 100
def KEY_L_ARROW : BitVec 8 := 101
def KEY_D_ARROW : BitVec 8 := 102
def KEY_R_ARROW : BitVec 8 := 103
def KEY_NUM_LOCK : BitVec 8 := 104
def KEY_POWER : BitVec 8 := 105
def KEY_SLEEP : BitVec 8 := 106
def KEY_WAKE : BitVec 8 := 107
def KEY_NXT_TRACK : BitVec 8 := 108
def KEY_PRV_TRACK : BitVec 8 := 109
def KEY_STOP : BitVec 8 := 110
def KEY_PLAY : BitVec 8 := 111
def KEY_MUTE : BitVec 8 := 112
def KEY_VOL_UP : BitVec 8 := 113
def KEY_VOL_DOWN : BitVec 8 := 114
def KEY_MEDIA_SEL : BitVec 8 := 115
def KEY_EMAIL : BitVec 8 := 116
def KEY_CALCULATOR : BitVec 8 := 117
def KEY_MY_PC : BitVec 8 := 118
def KEY_WWW_SEARCH : BitVec 8 := 119
def KEY_WWW_HOME : BitVec 8 := 120
def KEY_WWW_BACK : BitVec 8 := 121
def KEY_WWW_FORWARD : BitVec 8 := 122
def KEY_WWW_REFRSH : BitVec 8 := 124
def KEY_WWW_FAV : BitVec 8 := 125
def LAST_KEY : BitVec 8 := KEY_WWW_FAV

def KEY_STATE_UP : BitVec 8 := 0
def KEY_STATE_DOWN : BitVec 8 := 1
def KEY_STATE_HELD : BitVec 8 := 2

/-- Indexed by the scan code. -/
def translation_map : List (BitVec 8) :=
  [KEY_NONE, KEY_F9, KEY_NONE, KEY_F5, KEY_F3, KEY_F1, KEY_F2, KEY_F12, KEY_NONE, KEY_F10, KEY_F8,
    KEY_F6, KEY_F4, KEY_TAB, KEY_GRAVE, KEY_NONE, KEY_NONE, KEY_LALT, KEY_LSHIFT, KEY_NONE,
    KEY_LCTRL, KEY_Q, KEY_1, KEY_NONE, KEY_NONE, KEY_NONE, KEY_Z, KEY_S, KEY_A, KEY_W, KEY_2,
    KEY_NONE, KEY_NONE, KEY_C, KEY_X, KEY_D, KEY_E, KEY_4, KEY_3, KEY_NONE, KEY_NONE, KEY_SPACE,
    KEY_V, KEY_F, KEY_T, KEY_R, KEY_5, KEY_NONE, KEY_NONE, KEY_N, KEY_B, KEY_H, KEY_G, KEY_Y, KEY_6,
    KEY_NONE, KEY_NONE, KEY_NONE, KEY_M, KEY_J, KEY_U, KEY_7, KEY_8, KEY_NONE, KEY_NONE, KEY_COMMA,
    KEY_K, KEY_I, KEY_O, KEY_0, KEY_9, KEY_NONE, KEY_NONE, KEY_DOT, KEY_SLASH, KEY_L, KEY_SEMICOLON,
    KEY_P, KEY_DASH, KEY_NONE, KEY_NONE, KEY_NONE, KEY_APOSTROPHE, KEY_NONE, KEY_LBRACE, KEY_EQUALS,
    KEY_NONE, KEY_NONE, KEY_CAPS_LOCK, KEY_RSHIFT, KEY_ENTER, KEY_RBRACE, KEY_NONE, KEY_BACKSLASH,
    KEY_NONE, KEY_NONE, KEY_NONE, KEY_NONE, KEY_NONE, KEY_NONE, KEY_NONE, KEY_NONE, KEY_BACKSPACE,
    KEY_NONE, KEY_NONE, KEY_KP_1, KEY_NONE, KEY_KP_4, KEY_KP_7, KEY_NONE, KEY_NONE, KEY_NONE,
    KEY_KP_0, KEY_KP_DOT, KEY_KP_2, KEY_KP_5, KEY_KP_6, KEY_KP_8, KEY_ESCAPE, KEY_NUM_LOCK, KEY_F11,
    KEY_KP_PLUS, KEY_KP_3, KEY_KP_MINUS, KEY_KP_STAR, KEY_KP_9, KEY_SCROLL_LOCK, KEY_NONE, KEY_NONE,
    KEY_NONE, KEY_NONE, KEY_F7]

/-- Indexed by the scan code less `0x11`. -/
def translation_mapE0 : List (BitVec 8) :=
  [KEY_WWW_SEARCH, KEY_RALT, KEY_NONE, KEY_NONE, KEY_RCTRL, KEY_PRV_TRACK, KEY_NONE, KEY_NONE,
    KEY_WWW_FAV, KEY_NONE, KEY_NONE, KEY_NONE, KEY_NONE, KEY_NONE, KEY_NONE, KEY_LGUI,
    KEY_WWW_REFRSH, KEY_VOL_DOWN, KEY_NONE, KEY_MUTE, KEY_NONE, KEY_NONE, KEY_NONE, KEY_RGUI,
    KEY_STOP, KEY_NONE, KEY_NONE, KEY_CALCULATOR, KEY_NONE, KEY_NONE, KEY_NONE, KEY_APPS,
    KEY_WWW_FORWARD, KEY_NONE, KEY_VOL_UP, KEY_NONE, KEY_PLAY, KEY_NONE, KEY_NONE, KEY_POWER,
    KEY_WWW_BACK, KEY_NONE, KEY_WWW_HOME, KEY_STOP, KEY_NONE, KEY_NONE, KEY_NONE, KEY_SLEEP,
    KEY_MY_PC, KEY_NONE, KEY_NONE, KEY_NONE, KEY_NONE, KEY_NONE, KEY_NONE, KEY_EMAIL, KEY_KP_SLASH,
    KEY_NONE, KEY_NONE, KEY_NXT_TRACK, KEY_NONE, KEY_NONE, KEY_MEDIA_SEL, KEY_NONE, KEY_NONE,
    KEY_NONE, KEY_NONE, KEY_NONE, KEY_NONE, KEY_NONE, KEY_NONE, KEY_NONE, KEY_NONE, KEY_KP_ENTER,
    KEY_NONE, KEY_NONE, KEY_NONE, KEY_WAKE, KEY_NONE, KEY_NONE, KEY_NONE, KEY_NONE, KEY_NONE,
    KEY_NONE, KEY_NONE, KEY_NONE, KEY_NONE, KEY_NONE, KEY_END, KEY_NONE, KEY_L_ARROW, KEY_HOME,
    KEY_NONE, KEY_NONE, KEY_NONE, KEY_INSERT, KEY_DELETE, KEY_D_ARROW, KEY_NONE, KEY_R_ARROW,
    KEY_U_ARROW, KEY_NONE, KEY_NONE, KEY_NONE, KEY_NONE, KEY_PG_DOWN, KEY_NONE, KEY_NONE, KEY_PG_UP]

/-- The bytes before and behind the two tables, at their indices. -/
structure Around where
  map : Int → BitVec 8
  mapE0 : Int → BitVec 8

/-- `table[i]` in a memory that holds `around` outside the table. -/
def lookup (table : List (BitVec 8)) (around : Int → BitVec 8) (i : Int) : BitVec 8 :=
  if i < 0 then around i else table.getD i.toNat (around i)

end Condor.Kbd
