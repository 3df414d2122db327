import Condor.Lib.Moved
import Condor.Tty.Terminal
import Mathlib.Logic.Function.Iterate

/-!
# The assembly of `terminal_scroll`

The instructions, one after the other, on the registers they use and a memory of
bytes. `touched` are the addresses of the dwords that the string instructions
read and write: these are the ones that go to video memory. The operands `%0` to
`%3` are fields of `terminal`, whose address is a parameter.
-/

namespace Condor.Tty.Scroll

/-- Bytes at addresses. -/
abbrev Mem := BitVec 32 → BitVec 8

def load16 (m : Mem) (a : BitVec 32) : BitVec 16 := m (a + 1#32) ++ m a

def load32 (m : Mem) (a : BitVec 32) : BitVec 32 := load16 m (a + 2#32) ++ load16 m a

structure Cpu where
  eax : BitVec 32
  ecx : BitVec 32
  edx : BitVec 32
  esi : BitVec 32
  edi : BitVec 32
  /-- The direction flag. -/
  df : Bool
  mem : Mem
  touched : List (BitVec 32)

inductive Reg where
  | eax | ecx | edx | esi | edi

inductive Instr where
  | cld
  /-- `movl a, r` -/
  | movlMem (a : BitVec 32) (r : Reg)
  /-- `movl $v, r` -/
  | movlImm (v : BitVec 32) (r : Reg)
  /-- `addl $v, r` -/
  | addl (v : BitVec 32) (r : Reg)
  /-- `shl $n, r` -/
  | shl (n : Nat) (r : Reg)
  /-- `shr $n, r` -/
  | shr (n : Nat) (r : Reg)
  /-- `orl a, r` -/
  | orlMem (a : BitVec 32) (r : Reg)
  /-- `movw a, r`, for the low half of `r` -/
  | movwMem (a : BitVec 32) (r : Reg)
  /-- `mulw a` -/
  | mulwMem (a : BitVec 32)
  /-- `xchg r, r'` -/
  | xchg (r r' : Reg)
  | repMovsd
  | repStosl

/-- A register with another low half. -/
def set_low (r : BitVec 32) (v : BitVec 16) : BitVec 32 := r.extractLsb' 16 16 ++ v

namespace Cpu

def get (c : Cpu) : Reg → BitVec 32
  | .eax => c.eax
  | .ecx => c.ecx
  | .edx => c.edx
  | .esi => c.esi
  | .edi => c.edi

def set (c : Cpu) (r : Reg) (v : BitVec 32) : Cpu :=
  match r with
  | .eax => { c with eax := v }
  | .ecx => { c with ecx := v }
  | .edx => { c with edx := v }
  | .esi => { c with esi := v }
  | .edi => { c with edi := v }

/-- What a string instruction adds to its pointers. -/
def stride (c : Cpu) : BitVec 32 := if c.df then -4#32 else 4#32

/-- One dword of `movsd`. -/
def movsd (c : Cpu) : Cpu :=
  { c with
    mem := Lib.moved 4 c.edi c.esi c.mem
    touched := c.touched ++ [c.esi, c.edi]
    esi := c.esi + c.stride
    edi := c.edi + c.stride
    ecx := c.ecx - 1#32 }

/-- One dword of `stosl`. -/
def stosl (c : Cpu) : Cpu :=
  { c with
    mem := Lib.filled 4 c.edi (fun i => (c.eax >>> (8 * i)).setWidth 8) c.mem
    touched := c.touched ++ [c.edi]
    edi := c.edi + c.stride
    ecx := c.ecx - 1#32 }

end Cpu

def exec (c : Cpu) : Instr → Cpu
  | .cld => { c with df := false }
  | .movlMem a r => c.set r (load32 c.mem a)
  | .movlImm v r => c.set r v
  | .addl v r => c.set r (c.get r + v)
  | .shl n r => c.set r (c.get r <<< n)
  | .shr n r => c.set r (c.get r >>> n)
  | .orlMem a r => c.set r (c.get r ||| load32 c.mem a)
  | .movwMem a r => c.set r (set_low (c.get r) (load16 c.mem a))
  | .mulwMem a =>
    let product := (c.eax.setWidth 16).setWidth 32 * (load16 c.mem a).setWidth 32
    { c with eax := set_low c.eax (product.setWidth 16), edx := set_low c.edx ((product >>> 16).setWidth 16) }
  | .xchg r r' => (c.set r (c.get r')).set r' (c.get r)
  | .repMovsd => Cpu.movsd^[c.ecx.toNat] c
  | .repStosl => Cpu.stosl^[c.ecx.toNat] c

/-! ## The code -/

def VGA_MEMORY : BitVec 32 := 0xC00B8000#32

/-- The fields of a `terminal_t` at address `p`. -/
def width_at (p : BitVec 32) : BitVec 32 := p

def height_at (p : BitVec 32) : BitVec 32 := p + 2#32

def default_color_at (p : BitVec 32) : BitVec 32 := p + 12#32

def flags_at (p : BitVec 32) : BitVec 32 := p + 13#32

def buffer_at (p : BitVec 32) : BitVec 32 := p + 16#32

def scroll_asm (p : BitVec 32) : List Instr :=
  [.cld,
   .movlMem (buffer_at p) .esi,
   .movlMem (buffer_at p) .edi,
   .addl 0x140#32 .esi,
   .addl 0x0A0#32 .edi,
   .movlImm 0#32 .ecx,
   .shl 16 .ecx,
   .orlMem (default_color_at p) .ecx,
   .shl 8 .ecx,
   .movwMem (width_at p) .eax,
   .mulwMem (height_at p),
   .shr 1 .eax,
   .xchg .eax .ecx,
   .repMovsd,
   .movwMem (width_at p) .ecx,
   .shr 1 .ecx,
   .movlImm 0xC00B8FA0#32 .edi,
   .repStosl]

/-- The assembly, with the registers and the memory of `c`. -/
def terminal_scroll (p : BitVec 32) (c : Cpu) : Cpu := (scroll_asm p).foldl exec { c with touched := [] }

/-- The static variable `terminal` at `p` is as `terminal_init` leaves it. -/
structure Initialised (p : BitVec 32) (m : Mem) : Prop where
  width : load16 m (width_at p) = 80#16
  height : load16 m (height_at p) = 24#16
  default_color : m (default_color_at p) = 0#8
  flags : m (flags_at p) = 1#8
  buffer : load32 m (buffer_at p) = VGA_MEMORY

instance (p : BitVec 32) (m : Mem) : Decidable (Initialised p m) :=
  decidable_of_iff (load16 m (width_at p) = 80#16 ∧ load16 m (height_at p) = 24#16 ∧
      m (default_color_at p) = 0#8 ∧ m (flags_at p) = 1#8 ∧ load32 m (buffer_at p) = VGA_MEMORY)
    ⟨fun ⟨h1, h2, h3, h4, h5⟩ => ⟨h1, h2, h3, h4, h5⟩, fun h => ⟨h.1, h.2, h.3, h.4, h.5⟩⟩

/-- The byte of the screen at an offset. -/
def screen_at (i : Nat) : BitVec 32 := VGA_MEMORY + BitVec.ofNat 32 i

/-- A blank in a colour. -/
def IsBlank (color term_char term_colour : BitVec 8) : Prop :=
  (term_char = 0#8 ∨ term_char = Libc.ascii ' ') ∧ term_colour = color

/-- Row 0 stays, rows 2 to 24 move up, row 24 is blank, and all cells that are read or written are in the 25 rows
of 160 bytes. -/
structure ScrollsIn (color : BitVec 8) (c c' : Cpu) : Prop where
  first : ∀ i < 160, c'.mem (screen_at i) = c.mem (screen_at i)
  rows : ∀ i, 160 ≤ i → i < 24 * 160 → c'.mem (screen_at i) = c.mem (screen_at (i + 160))
  last : ∀ x < 80, IsBlank color (c'.mem (screen_at (24 * 160 + 2 * x))) (c'.mem (screen_at (24 * 160 + 2 * x + 1)))
  inside : ∀ a ∈ c'.touched, (a - VGA_MEMORY).toNat + 4 ≤ 25 * 160

end Condor.Tty.Scroll
