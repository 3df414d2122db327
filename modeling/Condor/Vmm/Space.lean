import Condor.Lib.Loop

/-!
# Paging, as the rest of the kernel sees it

The physical memory manager and the heap hooks reach memory only through linear
addresses and change mappings only through `vmm_map_address`. `Paging σ` is that
interface over a state `σ`; a load or store of an unmapped page stops with a
page fault. `AddrSpace` is its plain instance: one 32-bit entry per linear page,
and the contents of each physical frame as 1024 dwords. `Condor.Vmm.Refine`
shows that the page tables of `vmm.c` implement it.

Linear and physical addresses are `Nat`s below `2 ^ 32`; pages and frames are
their upper 20 bits.
-/

namespace Condor

/-- Ways a kernel routine ends without returning to its caller. -/
inductive Stop where
  | pageFault (laddr : Nat)
  | kpanic (message : String)
  deriving DecidableEq, Repr

def PAGE_PRESENT : Nat := 0x00000001
def PAGE_RW : Nat := 0x00000002
def PAGE_USER : Nat := 0x00000004
def PAGE_REMAP : Nat := 0x00001000
def BLOCK_SIZE : Nat := 0x1000
def BLOCK_BITS : Nat := 12

/-- The paging operations other modules call; `sumap_page` is `vmm_unmap_address` without the
`pfree` of the frame it answers. -/
structure Paging (σ : Type) where
  vmm_get_physical_addr : σ → Nat → Except Stop Nat
  vmm_map_address : σ → Nat → Nat → Nat → Except Stop (Nat × σ)
  sumap_page : σ → Nat → Except Stop (Nat × σ)
  load : σ → Nat → Except Stop Nat
  store : σ → Nat → Nat → Except Stop σ

/-- `memset(base, 0xFF, 4096)`, dword by dword. -/
def Paging.memset {σ : Type} (P : Paging σ) (s : σ) (base : Nat) : Except Stop σ :=
  Lib.forUp 0 1024 s fun i s => P.store s (base + 4 * i) 0xFFFFFFFF

/-- An address space: the entry of each page and the dwords of each frame. -/
structure AddrSpace where
  pte : Nat → Nat
  frames : Nat → Nat → Nat

namespace AddrSpace

/-- The frame a page is mapped to. -/
def frame? (s : AddrSpace) (page : Nat) : Option Nat :=
  if s.pte page % 2 = 1 then some (s.pte page / 4096) else none

def vmm_get_physical_addr (s : AddrSpace) (laddr : Nat) : Except Stop Nat :=
  .ok (match s.frame? (laddr / 4096) with
    | some f => f * 4096 + laddr % 4096
    | none => 0)

/-- Map a page unless it is mapped already and `PAGE_REMAP` is not asked for. No caller passes the
`laddr` of `0xFFFFFFFF` that frees the frame instead. -/
def vmm_map_address (s : AddrSpace) (laddr paddr flags : Nat) : Except Stop (Nat × AddrSpace) :=
  if paddr = 0xFFFFFFFF then .ok (1, s)
  else if (s.frame? (laddr / 4096)).isSome ∧ flags &&& PAGE_REMAP = 0 then .ok (1, s)
  else .ok (0, { s with
    pte := Function.update s.pte (laddr / 4096) (paddr / 4096 * 4096 + flags % 4096) })

/-- Unmap a page and answer its frame's address. -/
def sumap_page (s : AddrSpace) (laddr : Nat) : Except Stop (Nat × AddrSpace) :=
  .ok (match s.frame? (laddr / 4096) with
    | some f => (f * 4096, { s with pte := Function.update s.pte (laddr / 4096) 0 })
    | none => (0, s))

def load (s : AddrSpace) (laddr : Nat) : Except Stop Nat :=
  match s.frame? (laddr / 4096) with
  | some f => .ok (s.frames f (laddr % 4096 / 4))
  | none => .error (.pageFault laddr)

/-- The space with the dwords of frame `f` replaced by `g`. -/
def setFrame (s : AddrSpace) (f : Nat) (g : Nat → Nat) : AddrSpace :=
  { s with frames := Function.update s.frames f g }

def store (s : AddrSpace) (laddr v : Nat) : Except Stop AddrSpace :=
  match s.frame? (laddr / 4096) with
  | some f => .ok (s.setFrame f (Function.update (s.frames f) (laddr % 4096 / 4) v))
  | none => .error (.pageFault laddr)

/-- The address space as a `Paging` instance. -/
def paging : Paging AddrSpace where
  vmm_get_physical_addr := vmm_get_physical_addr
  vmm_map_address := vmm_map_address
  sumap_page := sumap_page
  load := load
  store := store

/-! ## What the operations do -/

variable {s s' : AddrSpace} {page f laddr v : Nat}

theorem getPhys_of_frame (h : s.frame? (laddr / 4096) = some f) :
    paging.vmm_get_physical_addr s laddr = .ok (f * 4096 + laddr % 4096) := by
  simp [paging, vmm_get_physical_addr, h]

theorem getPhys_of_none (h : s.frame? (laddr / 4096) = none) :
    paging.vmm_get_physical_addr s laddr = .ok 0 := by
  simp [paging, vmm_get_physical_addr, h]

theorem load_of_frame (h : s.frame? (laddr / 4096) = some f) :
    paging.load s laddr = .ok (s.frames f (laddr % 4096 / 4)) := by
  simp [paging, load, h]

theorem store_of_frame (h : s.frame? (laddr / 4096) = some f) (v : Nat) :
    paging.store s laddr v =
      .ok (s.setFrame f (Function.update (s.frames f) (laddr % 4096 / 4) v)) := by
  simp [paging, store, h]

/-- Mapping a page present: the frame of that page, and no other page, changes. -/
theorem map_ok {paddr flags : Nat} (hp : paddr ≠ 0xFFFFFFFF)
    (hu : s.frame? (laddr / 4096) = none ∨ flags &&& PAGE_REMAP ≠ 0) :
    paging.vmm_map_address s laddr paddr flags = .ok (0, { s with
      pte := Function.update s.pte (laddr / 4096) (paddr / 4096 * 4096 + flags % 4096) }) := by
  have h : ¬ ((s.frame? (laddr / 4096)).isSome ∧ flags &&& PAGE_REMAP = 0) := by
    rcases hu with hu | hu
    · simp [hu]
    · exact fun hc => hu hc.2
  simp only [paging, vmm_map_address, if_neg hp, if_neg h]

/-- A mapping changes no other page. -/
theorem frame?_map {paddr flags r : Nat} (h : paging.vmm_map_address s laddr paddr flags = .ok (r, s'))
    (hp : page ≠ laddr / 4096) : s'.frame? page = s.frame? page := by
  simp only [paging, vmm_map_address] at h
  split at h
  · cases h; rfl
  split at h
  · cases h; rfl
  · cases h
    simp only [frame?, Function.update_of_ne hp]

theorem frame?_sumap {r : Nat} (h : paging.sumap_page s laddr = .ok (r, s')) (hp : page ≠ laddr / 4096) :
    s'.frame? page = s.frame? page := by
  simp only [paging, sumap_page] at h
  split at h
  · cases h
    simp only [frame?, Function.update_of_ne hp]
  · cases h; rfl

/-- Stores change no mapping. -/
theorem frame?_store (h : paging.store s laddr v = .ok s') : s'.frame? page = s.frame? page := by
  simp only [paging, store] at h
  split at h
  · cases h; rfl
  · cases h

theorem frame?_memset {base : Nat} (h : paging.memset s base = .ok s') :
    s'.frame? page = s.frame? page :=
  Lib.forUp_keeps (P := fun t => t.frame? page = s.frame? page) rfl
    (fun _ _ _ _ _ ht hb => (frame?_store hb).trans ht) h

theorem frame?_update_self {paddr flags : Nat} (hf : flags % 2 = 1) (page : Nat) :
    frame? { s with pte := Function.update s.pte page (paddr / 4096 * 4096 + flags % 4096) } page =
      some (paddr / 4096) := by
  unfold frame?
  simp only [Function.update_self]
  rw [if_pos (by omega), show (paddr / 4096 * 4096 + flags % 4096) / 4096 = paddr / 4096 by omega]

theorem frame?_update_ne {page' e : Nat} (h : page' ≠ page) :
    frame? { s with pte := Function.update s.pte page e } page' = s.frame? page' := by
  simp [frame?, Function.update_of_ne h]

@[simp] theorem frame?_setFrame (g : Nat → Nat) (page : Nat) :
    (s.setFrame f g).frame? page = s.frame? page := rfl

@[simp] theorem setFrame_frames_self (g : Nat → Nat) : (s.setFrame f g).frames f = g :=
  Function.update_self ..

theorem setFrame_frames_ne {f' : Nat} (h : f' ≠ f) (g : Nat → Nat) :
    (s.setFrame f g).frames f' = s.frames f' := Function.update_of_ne h ..

@[simp] theorem setFrame_setFrame (g g' : Nat → Nat) :
    (s.setFrame f g).setFrame f g' = s.setFrame f g' := by
  simp [setFrame]

/-- `n` stores from the start of a mapped page fill its first `n` dwords. -/
theorem stores_ok {base : Nat} (hb : base % 4096 = 0) (h : s.frame? (base / 4096) = some f) {n : Nat}
    (hn : n ≤ 1024) :
    Lib.forUp 0 n s (fun i s => paging.store s (base + 4 * i) v) =
      .ok (s.setFrame f fun k => if k < n then v else s.frames f k) := by
  induction n with
  | zero =>
    rw [Lib.forUp_of_le (Nat.le_refl 0)]
    simp only [Nat.not_lt_zero, if_false, setFrame, Function.update_eq_self]
    rfl
  | succ n ih =>
    rw [Lib.forUp_succ (Nat.zero_le n), ih (by omega)]
    have hd : (base + 4 * n) / 4096 = base / 4096 := by omega
    show paging.store _ (base + 4 * n) v = _
    rw [store_of_frame (f := f) (by rw [hd]; exact h), show (base + 4 * n) % 4096 / 4 = n by omega]
    simp only [setFrame_frames_self, setFrame_setFrame]
    congr 2
    funext k
    by_cases hk : k = n
    · subst hk; simp
    · rw [Function.update_of_ne hk]
      simp only [show (k < n + 1) = (k < n) from propext (by omega)]

/-- Filling a mapped page with ones. -/
theorem memset_ok {base : Nat} (hb : base % 4096 = 0) (h : s.frame? (base / 4096) = some f) :
    paging.memset s base =
      .ok (s.setFrame f fun k => if k < 1024 then 0xFFFFFFFF else s.frames f k) :=
  stores_ok hb h (Nat.le_refl _)

end AddrSpace

end Condor
