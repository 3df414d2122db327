import Condor.Pmm.Modules
import Condor.Vmm.MapUnmap

/-!
# The command lines of the boot modules

For each boot module `kinit` maps the page of its command line and compares the
string with the names it knows. The linear address for the mapping and the pointer
to the string are one variable. The offset in the page is or-ed into it, and it is
never set back, so the pointer has the offset bits of all the command lines so far.
The page is right always; the offset is right if and only if no earlier command
line has an offset bit that the current one lacks (`module_pointer_iff`).

What an iteration does behind the first `strncmp` may change the machine, but not
the variable, so the next one starts on any machine that is `Ready`.
-/

namespace Condor.Vmm

open Lib Pmm

variable {π : Type}

/-- The tables are self-mapped, and `pmalloc` hands out frames that are no tables. -/
structure Ready (pmm : PmmCalls π) (m : Machine π) : Prop where
  wf : m.WF
  inited : pmm.pmm_isInited m = true
  handout : ∀ p m', pmm.pmalloc m = .ok (p, m') → Handout m p m'

/-- `module->cmdline & 0xFFF`. -/
def cmdline_offset (module : MultibootModule) : BitVec 32 := module.cmdline &&& 0xFFF#32

/-- What `vmm_map_address` answers in an iteration, and the pointer for `strncmp`. -/
def map_cmdline (pmm : PmmCalls π) (m : Machine π) (cmdline : BitVec 32) (module : MultibootModule) :
    Except Stop (Nat × Machine π × BitVec 32) := do
  let flags := PAGE_PRESENT ||| PAGE_USER ||| PAGE_REMAP
  let r ← vmm_map_address pmm m cmdline.toNat module.cmdline.toNat flags
  .ok (r.1, r.2, cmdline ||| cmdline_offset module)

/-- The machine and `cmdline` at the start of iteration `i`. -/
inductive ModuleLoop (pmm : PmmCalls π) (mods : List MultibootModule) : Nat → Machine π → BitVec 32 → Prop
  | start {m} (hm : Ready pmm m) : ModuleLoop pmm mods 0 m 0x04000000#32
  | next {i m cmdline module r m1 ptr m2} (h : ModuleLoop pmm mods i m cmdline) (hi : mods[i]? = some module)
      (hmap : map_cmdline pmm m cmdline module = .ok (r, m1, ptr)) (hm2 : Ready pmm m2) :
      ModuleLoop pmm mods (i + 1) m2 ptr

/-- In iteration `i` the mapping succeeded, and `strncmp` gets `ptr` on machine `m`. -/
inductive StrncmpCall (pmm : PmmCalls π) (mods : List MultibootModule) (i : Nat) (module : MultibootModule)
    (m : Machine π) (ptr : BitVec 32) : Prop
  | call {m0 cmdline} (h : ModuleLoop pmm mods i m0 cmdline) (hi : mods[i]? = some module)
      (hmap : map_cmdline pmm m0 cmdline module = .ok (0, m, ptr)) : StrncmpCall pmm mods i module m ptr

/-- The pointer addresses the byte at physical address `module->cmdline`. -/
structure Addresses (m : Machine π) (ptr : BitVec 32) (module : MultibootModule) : Prop where
  page : m.frame? (ptr.toNat / 4096) = some (module.cmdline.toNat / 4096)
  offset : ptr &&& 0xFFF#32 = cmdline_offset module

/-- `module` has all the offset bits of `earlier`. -/
def Covers (module earlier : MultibootModule) : Prop :=
  cmdline_offset earlier ||| cmdline_offset module = cmdline_offset module

variable {pmm : PmmCalls π} {mods : List MultibootModule} {i : Nat} {m m1 : Machine π} {cmdline ptr : BitVec 32}
  {module : MultibootModule} {r : Nat}

/-! ## The variable -/

theorem or_or_eq_iff {a b x : BitVec 32} : a ||| b ||| x = x ↔ a ||| x = x ∧ b ||| x = x := by
  constructor
  · intro h
    have ha : a ||| (a ||| b ||| x) = a ||| b ||| x := by
      rw [BitVec.or_assoc a b x, ← BitVec.or_assoc a a, BitVec.or_self]
    have hb : b ||| (a ||| b ||| x) = a ||| b ||| x := by
      rw [BitVec.or_comm a b, BitVec.or_assoc b a x, ← BitVec.or_assoc b b, BitVec.or_self]
    rw [h] at ha hb
    exact ⟨ha, hb⟩
  · rintro ⟨ha, hb⟩
    rw [BitVec.or_assoc, hb, ha]

theorem offset_and (module : MultibootModule) : cmdline_offset module &&& 0xFFF#32 = cmdline_offset module := by
  unfold cmdline_offset
  rw [BitVec.and_assoc, BitVec.and_self]

theorem offset_lt (module : MultibootModule) : (cmdline_offset module).toNat < 4096 := by
  unfold cmdline_offset
  rw [BitVec.toNat_and]
  exact Nat.lt_of_le_of_lt Nat.and_le_right (by decide)

theorem or_offset (cmdline : BitVec 32) (module : MultibootModule) :
    (cmdline ||| cmdline_offset module) &&& 0xFFF#32 = cmdline &&& 0xFFF#32 ||| cmdline_offset module := by
  rw [BitVec.and_or_distrib_right, offset_and]

/-- The offset does not reach the page. -/
theorem or_page (cmdline : BitVec 32) (module : MultibootModule) :
    (cmdline ||| cmdline_offset module).toNat / 4096 = cmdline.toNat / 4096 := by
  have hdiv : (cmdline_offset module).toNat / 2 ^ 12 = 0 := Nat.div_eq_of_lt (offset_lt module)
  rw [BitVec.toNat_or, show (4096 : Nat) = 2 ^ 12 from rfl, Nat.or_div_two_pow, hdiv, Nat.or_zero]

theorem map_cmdline_ok (h : map_cmdline pmm m cmdline module = .ok (r, m1, ptr)) :
    vmm_map_address pmm m cmdline.toNat module.cmdline.toNat (PAGE_PRESENT ||| PAGE_USER ||| PAGE_REMAP) =
      .ok (r, m1) ∧ ptr = cmdline ||| cmdline_offset module := by
  obtain ⟨⟨r, m1⟩, hmap, h⟩ := bind_eq_ok.mp h
  cases h
  exact ⟨hmap, rfl⟩

/-- The page never changes, and the offset has the bits of the command lines so far. -/
theorem ModuleLoop.spec (h : ModuleLoop pmm mods i m cmdline) : Ready pmm m ∧ cmdline.toNat / 4096 = 0x4000 ∧
    ∀ x, cmdline &&& 0xFFF#32 ||| x = x ↔
      ∀ j < i, ∀ earlier, mods[j]? = some earlier → cmdline_offset earlier ||| x = x := by
  induction h with
  | start hm =>
    refine ⟨hm, rfl, fun x => iff_of_true ?_ fun j hj => absurd hj (Nat.not_lt_zero j)⟩
    exact BitVec.zero_or
  | @next i m cmdline module r m1 ptr m2 h hi hmap hm2 ih =>
    obtain ⟨-, hpage, hoffset⟩ := ih
    obtain ⟨-, rfl⟩ := map_cmdline_ok hmap
    refine ⟨hm2, (or_page cmdline module).trans hpage, fun x => ?_⟩
    rw [or_offset, or_or_eq_iff, hoffset x]
    constructor
    · rintro ⟨hearlier, hmodule⟩ j hj earlier hget
      obtain hj | rfl := Nat.lt_succ_iff_lt_or_eq.mp hj
      · exact hearlier j hj earlier hget
      · cases hi.symm.trans hget
        exact hmodule
    · intro hall
      exact ⟨fun j hj => hall j (Nat.lt_succ_of_lt hj), hall i (Nat.lt_succ_self i) module hi⟩

/-! ## The pointer -/

/-- The mapping, where it succeeds, is that of the command line's page. -/
theorem map_cmdline_frame (hm : Ready pmm m) (hpage : cmdline.toNat / 4096 = 0x4000)
    (h : map_cmdline pmm m cmdline module = .ok (0, m1, ptr)) :
    m1.frame? (ptr.toNat / 4096) = some (module.cmdline.toNat / 4096) := by
  obtain ⟨hmap, rfl⟩ := map_cmdline_ok h
  have hbelow : BelowTables (cmdline.toNat / 4096) := by
    rw [hpage]
    unfold BelowTables
    decide
  have hpaddr : module.cmdline.toNat ≠ 0xFFFFFFFF := by
    intro hpaddr
    rw [vmm_map_address, if_pos hpaddr] at hmap
    cases hmap
  rw [vmm_map_address_eq (by omega) hpaddr] at hmap
  obtain ⟨hr, -⟩ | ⟨-, hmaps⟩ := smap_page_spec hm.wf hbelow hm.inited (fun _ => hm.handout) hmap
  · cases hr
  · rw [or_page, hmaps.self]
    rfl

/-- **The string pointer.** Where the mapping of an iteration succeeds, the pointer for `strncmp` addresses the
module's command line if and only if the command line has the offset bits of all those before it. -/
theorem module_pointer_iff (pmm : PmmCalls π) (mods : List MultibootModule) (i : Nat) (module : MultibootModule)
    (m : Machine π) (ptr : BitVec 32) (h : StrncmpCall pmm mods i module m ptr) :
    Addresses m ptr module ↔ ∀ j < i, ∀ earlier, mods[j]? = some earlier → Covers module earlier := by
  obtain ⟨hloop, hi, hmap⟩ := h
  obtain ⟨hm, hpage, hoffset⟩ := hloop.spec
  have hframe := map_cmdline_frame hm hpage hmap
  obtain ⟨-, rfl⟩ := map_cmdline_ok hmap
  unfold Covers
  rw [← hoffset, ← or_offset]
  exact ⟨fun haddr => haddr.offset, fun heq => ⟨hframe, heq⟩⟩

/-! ## A machine for strings -/

/-- The directory in frame 1, and a table for the page of the strings in frame 2. -/
def stringMachine : Machine Unit where
  cr3 := 1
  mem f k := if f = 1 then if k = 1023 then 0x1003 else if k = 16 then 0x2003 else 0 else 0
  pmm := ()

/-- The page of the strings has a table, and frame 4, which `smallPmm` hands out, is none. -/
structure HasStringTable (m : Machine Unit) : Prop where
  wf : m.WF
  table : m.pde 16 % 2 = 1
  unused : ¬ m.Used 4

section Strings

variable {m : Machine Unit}

theorem HasStringTable.ready (h : HasStringTable m) : Ready smallPmm m where
  wf := h.wf
  inited := rfl
  handout := by
    rintro p m' hm'
    cases hm'
    exact ⟨rfl, h.unused, rfl, fun _ _ => rfl⟩

theorem present_stringMachine {d : Nat} (hd : d < 1023) (h : stringMachine.pde d % 2 = 1) :
    d = 16 ∧ stringMachine.pde d / 4096 = 2 := by
  have hpde : stringMachine.pde d = if d = 1023 then 0x1003 else if d = 16 then 0x2003 else 0 := rfl
  rw [hpde, if_neg (by omega)] at h ⊢
  split at h
  · rename_i hd16
    rw [if_pos hd16]
    exact ⟨hd16, rfl⟩
  · cases h

theorem hasStringTable_stringMachine : HasStringTable stringMachine where
  wf :=
    { self := rfl
      self_frame := rfl
      table_ne := fun d hd h heq => by
        rw [(present_stringMachine hd h).2] at heq
        cases heq
      distinct := fun d hd e he hd1 he1 _ =>
        (present_stringMachine hd hd1).1.trans (present_stringMachine he he1).1.symm }
  table := rfl
  unused := by
    rintro (h | ⟨d, hd, h, hframe⟩)
    · cases h
    · rw [(present_stringMachine hd h).2] at hframe
      cases hframe

/-- Mapping the page again keeps the tables. -/
theorem HasStringTable.map (h : HasStringTable m) (hpage : cmdline.toNat / 4096 = 0x4000)
    (hmodule : module.cmdline.toNat ≠ 0xFFFFFFFF) :
    ∃ m', map_cmdline smallPmm m cmdline module = .ok (0, m', cmdline ||| cmdline_offset module) ∧
      HasStringTable m' := by
  have hbelow : BelowTables 0x4000 := by
    unfold BelowTables
    decide
  have hentry : ∃ m', map_entry m 0x4000 module.cmdline.toNat 0x1005 = .ok (0, m') := by
    unfold map_entry
    rw [h.wf.load_table hbelow.slot h.table, h.wf.store_table hbelow.slot h.table]
    exact ⟨_, if_neg fun hc => absurd hc.2 (by decide)⟩
  obtain ⟨m', hm'⟩ := hentry
  obtain ⟨hsame, -, -⟩ := map_entry_spec h.wf hbelow h.table hm'
  have hmap : vmm_map_address smallPmm m cmdline.toNat module.cmdline.toNat 0x1005 = .ok (0, m') := by
    rw [vmm_map_address_eq (by omega) hmodule, smap_page_eq h.wf (by rw [hpage]; exact hbelow), hpage]
    exact (if_pos h.table).trans hm'
  refine ⟨m', bind_eq_ok.mpr ⟨_, hmap, rfl⟩, hsame.wf h.wf, ?_, ?_⟩
  · rw [hsame.pde]
    exact h.table
  · rw [hsame.used]
    exact h.unused

/-- Two modules, each with its page. -/
theorem strncmpCall_second {a b : MultibootModule} (ha : a.cmdline.toNat ≠ 0xFFFFFFFF)
    (hb : b.cmdline.toNat ≠ 0xFFFFFFFF) : ∃ m, StrncmpCall smallPmm [a, b] 1 b m
      (0x04000000#32 ||| cmdline_offset a ||| cmdline_offset b) := by
  have hstart : ModuleLoop smallPmm [a, b] 0 stringMachine 0x04000000#32 :=
    .start hasStringTable_stringMachine.ready
  obtain ⟨m1, hm1, h1⟩ := hasStringTable_stringMachine.map
    (show (0x04000000#32).toNat / 4096 = 0x4000 from rfl) ha
  have hnext := ModuleLoop.next hstart rfl hm1 h1.ready
  obtain ⟨m2, hm2, -⟩ := h1.map hnext.spec.2.1 hb
  exact ⟨m2, .call hnext rfl hm2⟩

/-- The offset of the second command line has the bits of the first. -/
theorem module_pointer_second : ∃ m : Machine Unit, Addresses m 0x04000130#32 ⟨0, 0, 0x9130#32⟩ := by
  obtain ⟨m, hcall⟩ := strncmpCall_second (a := ⟨0, 0, 0x9110#32⟩) (b := ⟨0, 0, 0x9130#32⟩) (by decide) (by decide)
  refine ⟨m, (module_pointer_iff _ _ _ _ _ _ hcall).mpr fun j hj earlier hget => ?_⟩
  obtain rfl : j = 0 := Nat.lt_one_iff.mp hj
  cases hget
  rfl

/-- The strings are at 0x9001 and 0x9002, and the second pointer is to 0x9003. -/
theorem module_pointer_mixed : ∃ mods module m ptr, StrncmpCall smallPmm mods 1 module m ptr ∧
    ¬ Addresses m ptr module := by
  obtain ⟨m, hcall⟩ := strncmpCall_second (a := ⟨0, 0, 0x9001#32⟩) (b := ⟨0, 0, 0x9002#32⟩) (by decide) (by decide)
  exact ⟨_, _, m, _, hcall, fun haddr => absurd haddr.offset (by decide)⟩

end Strings

end Condor.Vmm
