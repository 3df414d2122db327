import Condor.Pmm.Unmap

/-!
# The hooks of liballoc, `alloc_hooks.c`

`psbrk` moves one break. Its pointers are to dwords, so it moves by
`4 * 4096` bytes a page and its loops step by as much. `liballoc_free` ignores
the address it is given.

`HeapRun C` are the runs whose calls meet `C`, with the chunks allocated and not
freed since. If every allocation stays below 4 GiB and every free finds all
other chunks below the break it moves to (`CallOk`), live chunks stay apart and
freeing one leaves the pages of the others mapped (`live_chunks_apart`).
-/

namespace Condor.Heap

open Lib

def HEAP_START : Nat := 0xD0000000
def brk_base : Nat := HEAP_START
def brk_hardLimit : Nat := HEAP_START + 0x0FFFFFFF

/-- The manager's state, the break, and whether the first page was mapped. -/
structure State (σ : Type) where
  pmm : Pmm.State σ
  brk_limit : Nat
  has_mapped : Bool

/-- `length << BLOCK_BITS` in 32 bits. -/
def blocks_size (length : Nat) : Nat := (length <<< BLOCK_BITS) % 2 ^ 32

/-- `p + n` and `p - n` for a pointer to dwords. -/
def ptr_add (p n : Nat) : Nat := (p + 4 * n) % 2 ^ 32
def ptr_sub (p n : Nat) : Nat := (p + 2 ^ 32 - 4 * n % 2 ^ 32) % 2 ^ 32

/-- How often `for (p = lo; p < hi; p += BLOCK_SIZE)` runs for a pointer to dwords. -/
def strides (lo hi : Nat) : Nat := (hi - lo + (4 * BLOCK_SIZE - 1)) / (4 * BLOCK_SIZE)

section
variable {σ : Type} (P : Paging σ)

/-- `vmm_map_address(page, pmalloc(), PAGE_PRESENT | PAGE_RW)`. -/
def map_page (s : State σ) (page : Nat) : Except Stop (State σ) := do
  let r ← Pmm.pmalloc P s.pmm
  let m ← P.vmm_map_address r.2.space page r.1 (PAGE_PRESENT ||| PAGE_RW)
  .ok { s with pmm := { r.2 with space := m.2 } }

def unmap_page (s : State σ) (page : Nat) : Except Stop (State σ) := do
  let pmm ← Pmm.vmm_unmap_address P s.pmm page
  .ok { s with pmm := pmm }

def psbrk (s : State σ) (length : Nat) (reduce : Bool) : Except Stop (Nat × State σ) :=
  let prev_limit := s.brk_limit
  if !reduce then
    let brk_limit := ptr_add prev_limit (blocks_size length)
    if brk_limit ≥ brk_hardLimit then .ok (0xFFFFFFFF, { s with brk_limit := brk_limit })
    else do
      let s ← forUp 0 (strides prev_limit brk_limit) { s with brk_limit := brk_limit } fun i s =>
        map_page P s (prev_limit + 4 * BLOCK_SIZE * i)
      .ok (prev_limit, s)
  else
    let brk_limit := ptr_sub prev_limit (blocks_size length)
    if brk_limit ≥ brk_hardLimit then .ok (0xFFFFFFFF, { s with brk_limit := brk_limit })
    else do
      let s ← forUp 0 (strides brk_limit prev_limit) { s with brk_limit := brk_limit } fun i s =>
        unmap_page P s (prev_limit - 4 * BLOCK_SIZE * i)
      .ok (0, s)

/-- Map the first page on the first call. -/
def ensure_mapped (s : State σ) : Except Stop (State σ) :=
  if !s.has_mapped then do
    let s ← map_page P s brk_base
    .ok { s with has_mapped := true }
  else .ok s

def liballoc_alloc (s : State σ) (length : Nat) : Except Stop (Nat × State σ) := do
  let s ← ensure_mapped P s
  psbrk P s length false

def liballoc_free (s : State σ) (_addr length : Nat) : Except Stop (Nat × State σ) := do
  let s ← ensure_mapped P s
  let r ← psbrk P s length true
  .ok (if r.1 ≠ 0xFFFFFFFF then 1 else 0, r.2)

end

/-! ## Chunks -/

/-- What an allocation of `pages` pages answered. -/
structure Chunk where
  addr : Nat
  pages : Nat
  deriving DecidableEq, Repr

/-- The end of the chunk. -/
def Chunk.fin (c : Chunk) : Nat := c.addr + BLOCK_SIZE * c.pages

/-- The chunks share no byte. -/
def Chunk.Apart (c d : Chunk) : Prop := ∀ a, c.addr ≤ a → a < c.fin → d.addr ≤ a → a < d.fin → False

/-- Linear page `q` lies in the chunk. -/
def Chunk.HasPage (c : Chunk) (q : Nat) : Prop := ∃ a, a / 4096 = q ∧ c.addr ≤ a ∧ a < c.fin

/-- The calls of liballoc. -/
inductive Call where
  | alloc (pages : Nat)
  | free (c : Chunk)

/-- The break stays below 4 GiB; a chunk is freed only if all other live chunks end at or below the
break that the free moves to. -/
def CallOk (s : State AddrSpace) (live : List Chunk) : Call → Prop
  | .alloc pages => s.brk_limit + 4 * BLOCK_SIZE * pages < 2 ^ 32
  | .free c => ∀ d ∈ live.erase c, d.fin + 4 * BLOCK_SIZE * c.pages ≤ s.brk_limit

/-- Runs of successful allocations and of frees of live chunks, whose calls all meet `C`. -/
inductive HeapRun (C : State AddrSpace → List Chunk → Call → Prop) :
    State AddrSpace → List Chunk → Prop
  | start {s} (hb : s.brk_limit = HEAP_START + BLOCK_SIZE) : HeapRun C s []
  | alloc {s s' live pages a} (hrun : HeapRun C s live) (hc : C s live (.alloc pages))
      (hok : liballoc_alloc AddrSpace.paging s pages = .ok (a, s')) (ha : a ≠ 0xFFFFFFFF) :
      HeapRun C s' (⟨a, pages⟩ :: live)
  | free {s s' live c r} (hrun : HeapRun C s live) (hmem : c ∈ live) (hc : C s live (.free c))
      (hok : liballoc_free AddrSpace.paging s c.addr c.pages = .ok (r, s')) :
      HeapRun C s' (live.erase c)

/-! ## What the calls do to the break and to the mappings -/

section
variable {σ : Type} {P : Paging σ} {s s' : State σ}

theorem map_page_brk {page : Nat} (h : map_page P s page = .ok s') :
    s'.brk_limit = s.brk_limit := by
  unfold map_page at h
  obtain ⟨r, -, h⟩ := bind_eq_ok.mp h
  obtain ⟨m, -, h⟩ := bind_eq_ok.mp h
  cases h
  rfl

theorem unmap_page_brk {page : Nat} (h : unmap_page P s page = .ok s') :
    s'.brk_limit = s.brk_limit := by
  unfold unmap_page at h
  obtain ⟨m, -, h⟩ := bind_eq_ok.mp h
  cases h
  rfl

theorem ensure_mapped_brk (h : ensure_mapped P s = .ok s') : s'.brk_limit = s.brk_limit := by
  unfold ensure_mapped at h
  split at h
  · obtain ⟨t, ht, h⟩ := bind_eq_ok.mp h
    have hb := map_page_brk ht
    cases h
    exact hb
  · cases h
    rfl

theorem ptr_add_eq {p n : Nat} (h : p + 4 * BLOCK_SIZE * n < 2 ^ 32) :
    ptr_add p (blocks_size n) = p + 4 * BLOCK_SIZE * n := by
  unfold BLOCK_SIZE at h ⊢
  unfold ptr_add blocks_size BLOCK_BITS
  rw [Nat.shiftLeft_eq]
  omega

theorem ptr_sub_eq {p n : Nat} (h : 4 * BLOCK_SIZE * n ≤ p) (hp : p < 2 ^ 32) :
    ptr_sub p (blocks_size n) = p - 4 * BLOCK_SIZE * n := by
  unfold BLOCK_SIZE at h ⊢
  unfold ptr_sub blocks_size BLOCK_BITS
  rw [Nat.shiftLeft_eq]
  omega

/-- What an allocation answers: the break is moved before it is compared with its limit. -/
inductive Grown (P : Paging σ) (s : State σ) (n : Nat) : Nat → State σ → Prop
  | limit {t} (ht : ensure_mapped P s = .ok t) (hb : brk_hardLimit ≤ ptr_add s.brk_limit (blocks_size n)) :
      Grown P s n 0xFFFFFFFF { t with brk_limit := ptr_add s.brk_limit (blocks_size n) }
  | pages {t s'} (ht : ensure_mapped P s = .ok t)
      (hb : ptr_add s.brk_limit (blocks_size n) < brk_hardLimit)
      (hloop : forUp 0 (strides s.brk_limit (ptr_add s.brk_limit (blocks_size n)))
        { t with brk_limit := ptr_add s.brk_limit (blocks_size n) }
        (fun i t => map_page P t (s.brk_limit + 4 * BLOCK_SIZE * i)) = .ok s') :
      Grown P s n s.brk_limit s'

/-- What a free answers. -/
inductive Shrunk (P : Paging σ) (s : State σ) (n : Nat) : Nat → State σ → Prop
  | limit {t} (ht : ensure_mapped P s = .ok t) (hb : brk_hardLimit ≤ ptr_sub s.brk_limit (blocks_size n)) :
      Shrunk P s n 0 { t with brk_limit := ptr_sub s.brk_limit (blocks_size n) }
  | pages {t s'} (ht : ensure_mapped P s = .ok t)
      (hb : ptr_sub s.brk_limit (blocks_size n) < brk_hardLimit)
      (hloop : forUp 0 (strides (ptr_sub s.brk_limit (blocks_size n)) s.brk_limit)
        { t with brk_limit := ptr_sub s.brk_limit (blocks_size n) }
        (fun i t => unmap_page P t (s.brk_limit - 4 * BLOCK_SIZE * i)) = .ok s') :
      Shrunk P s n 1 s'

theorem liballoc_alloc_cases {n a : Nat} (h : liballoc_alloc P s n = .ok (a, s')) : Grown P s n a s' := by
  unfold liballoc_alloc at h
  obtain ⟨t, ht, h⟩ := bind_eq_ok.mp h
  simp only [psbrk, Bool.not_false, if_true, ensure_mapped_brk ht] at h
  split at h
  · cases h
    exact .limit ht ‹_›
  · obtain ⟨u, hu, h⟩ := bind_eq_ok.mp h
    cases h
    exact .pages ht (by omega) hu

theorem liballoc_free_cases {n addr r : Nat} (h : liballoc_free P s addr n = .ok (r, s')) :
    Shrunk P s n r s' := by
  unfold liballoc_free at h
  obtain ⟨t, ht, h⟩ := bind_eq_ok.mp h
  obtain ⟨⟨b, u⟩, hu, h⟩ := bind_eq_ok.mp h
  cases h
  simp only [psbrk, Bool.not_true, Bool.false_eq_true, if_false, ensure_mapped_brk ht] at hu
  split at hu
  · cases hu
    exact .limit ht ‹_›
  · obtain ⟨v, hv, hu⟩ := bind_eq_ok.mp hu
    cases hu
    exact .pages ht (by omega) hv

theorem Grown.brk {n a : Nat} (h : Grown P s n a s') :
    s'.brk_limit = ptr_add s.brk_limit (blocks_size n) := by
  cases h with
  | limit => rfl
  | pages _ _ hloop =>
    exact forUp_keeps (P := fun t : State σ => t.brk_limit = ptr_add s.brk_limit (blocks_size n)) rfl
      (fun _ _ _ _ _ ht hb => (map_page_brk hb).trans ht) hloop

theorem Shrunk.brk {n r : Nat} (h : Shrunk P s n r s') :
    s'.brk_limit = ptr_sub s.brk_limit (blocks_size n) := by
  cases h with
  | limit => rfl
  | pages _ _ hloop =>
    exact forUp_keeps (P := fun t : State σ => t.brk_limit = ptr_sub s.brk_limit (blocks_size n)) rfl
      (fun _ _ _ _ _ ht hb => (unmap_page_brk hb).trans ht) hloop

/-- A successful allocation answers the old break. -/
theorem liballoc_alloc_brk {n a : Nat} (h : liballoc_alloc P s n = .ok (a, s')) (ha : a ≠ 0xFFFFFFFF)
    (hn : s.brk_limit + 4 * BLOCK_SIZE * n < 2 ^ 32) :
    a = s.brk_limit ∧ s'.brk_limit = s.brk_limit + 4 * BLOCK_SIZE * n ∧
      s'.brk_limit < brk_hardLimit := by
  have hgrown := liballoc_alloc_cases h
  have hbrk := hgrown.brk
  rw [ptr_add_eq hn] at hbrk
  cases hgrown with
  | limit => exact absurd rfl ha
  | pages _ hb => exact ⟨rfl, hbrk, by rwa [hbrk, ← ptr_add_eq hn]⟩

/-- What a free below the break does: it moves the break down, and unmaps from there on. -/
theorem liballoc_free_ok {n addr r : Nat} (h : liballoc_free P s addr n = .ok (r, s'))
    (hn : 4 * BLOCK_SIZE * n ≤ s.brk_limit) (hlt : s.brk_limit < brk_hardLimit) :
    ∃ t, ensure_mapped P s = .ok t ∧
      forUp 0 (strides (s.brk_limit - 4 * BLOCK_SIZE * n) s.brk_limit)
        { t with brk_limit := s.brk_limit - 4 * BLOCK_SIZE * n }
        (fun i t => unmap_page P t (s.brk_limit - 4 * BLOCK_SIZE * i)) = .ok s' := by
  have hmax : brk_hardLimit < 2 ^ 32 := by decide
  have hsub := ptr_sub_eq hn (by omega)
  cases liballoc_free_cases h with
  | limit _ hb => omega
  | pages ht _ hloop =>
    rw [hsub] at hloop
    exact ⟨_, ht, hloop⟩

/-- A free below the break moves it down. -/
theorem liballoc_free_brk {n addr r : Nat} (h : liballoc_free P s addr n = .ok (r, s'))
    (hn : 4 * BLOCK_SIZE * n ≤ s.brk_limit) (hlt : s.brk_limit < brk_hardLimit) :
    s'.brk_limit = s.brk_limit - 4 * BLOCK_SIZE * n := by
  have hmax : brk_hardLimit < 2 ^ 32 := by decide
  rw [(liballoc_free_cases h).brk, ptr_sub_eq hn (by omega)]

end

section
variable {s s' : State AddrSpace} {q : Nat}

theorem map_page_frame {page : Nat} (h : map_page AddrSpace.paging s page = .ok s') (hq : Pmm.Outside q)
    (hne : q ≠ page / 4096) : s'.pmm.space.frame? q = s.pmm.space.frame? q := by
  unfold map_page at h
  obtain ⟨⟨r, t⟩, ht, h⟩ := bind_eq_ok.mp h
  obtain ⟨⟨b, m⟩, hm, h⟩ := bind_eq_ok.mp h
  cases h
  exact (AddrSpace.frame?_map hm hne).trans (Pmm.pmalloc_frame ht hq)

theorem unmap_page_frame {page : Nat} (h : unmap_page AddrSpace.paging s page = .ok s')
    (hq : Pmm.Outside q) (hne : q ≠ page / 4096) :
    s'.pmm.space.frame? q = s.pmm.space.frame? q := by
  unfold unmap_page at h
  obtain ⟨m, hm, h⟩ := bind_eq_ok.mp h
  cases h
  exact Pmm.vmm_unmap_address_frame hm hq hne

theorem ensure_mapped_frame (h : ensure_mapped AddrSpace.paging s = .ok s') (hq : Pmm.Outside q)
    (hne : q ≠ HEAP_START / 4096) : s'.pmm.space.frame? q = s.pmm.space.frame? q := by
  unfold ensure_mapped at h
  split at h
  · obtain ⟨t, ht, h⟩ := bind_eq_ok.mp h
    have hf := map_page_frame ht hq hne
    cases h
    exact hf
  · cases h
    rfl

/-- A free leaves the heap pages below the new break mapped as they were. -/
theorem liballoc_free_frame {n addr r : Nat} (h : liballoc_free AddrSpace.paging s addr n = .ok (r, s'))
    (hn : 4 * BLOCK_SIZE * n ≤ s.brk_limit) (hlt : s.brk_limit < brk_hardLimit)
    (hlo : HEAP_START + BLOCK_SIZE ≤ 4096 * q)
    (hhi : 4096 * (q + 1) ≤ s.brk_limit - 4 * BLOCK_SIZE * n) :
    s'.pmm.space.frame? q = s.pmm.space.frame? q := by
  unfold HEAP_START BLOCK_SIZE at hlo
  have hq : Pmm.Outside q := by
    unfold Pmm.Outside Pmm.STACK32 Pmm.STACK64 Pmm.PMM_BASE
    omega
  obtain ⟨t, ht, hloop⟩ := liballoc_free_ok h hn hlt
  rw [← ensure_mapped_frame ht hq (by unfold HEAP_START; omega)]
  refine forUp_keeps (P := fun v : State AddrSpace => v.pmm.space.frame? q = t.pmm.space.frame? q) ?_
    (fun i v v' _ hi hv hstep => (unmap_page_frame hstep hq ?_).trans hv) hloop
  · rfl
  -- the loop stops above the new break
  unfold strides at hi
  unfold BLOCK_SIZE at *
  omega

end

/-! ## Runs -/

/-- The invariant of the runs: the break pays for the live chunks, which lie below it and apart. -/
structure Inv (s : State AddrSpace) (live : List Chunk) : Prop where
  brk : s.brk_limit = HEAP_START + BLOCK_SIZE + 4 * BLOCK_SIZE * (live.map Chunk.pages).sum
  lt : s.brk_limit < brk_hardLimit
  lo : ∀ c ∈ live, HEAP_START + BLOCK_SIZE ≤ c.addr
  aligned : ∀ c ∈ live, c.addr % BLOCK_SIZE = 0
  hi : ∀ c ∈ live, c.fin ≤ s.brk_limit
  apart : live.Pairwise Chunk.Apart

variable {s s' : State AddrSpace} {live : List Chunk}

theorem Inv.start (hb : s.brk_limit = HEAP_START + BLOCK_SIZE) : Inv s [] where
  brk := hb
  lt := by
    rw [hb]
    decide
  lo _ h := nomatch h
  aligned _ h := nomatch h
  hi _ h := nomatch h
  apart := List.Pairwise.nil

theorem Inv.alloc {pages a : Nat} (hi : Inv s live) (hc : CallOk s live (.alloc pages))
    (hok : liballoc_alloc AddrSpace.paging s pages = .ok (a, s')) (ha : a ≠ 0xFFFFFFFF) :
    Inv s' (⟨a, pages⟩ :: live) := by
  obtain ⟨rfl, hb, hlt⟩ := liballoc_alloc_brk hok ha hc
  have hbrk := hi.brk
  refine ⟨?_, hlt, ?_, ?_, ?_, ?_⟩
  · rw [hb, hbrk, List.map_cons, List.sum_cons, Nat.mul_add]
    dsimp only
    omega
  · refine List.forall_mem_cons.mpr ⟨?_, hi.lo⟩
    show HEAP_START + BLOCK_SIZE ≤ s.brk_limit
    omega
  · refine List.forall_mem_cons.mpr ⟨?_, hi.aligned⟩
    show s.brk_limit % BLOCK_SIZE = 0
    rw [hbrk]
    unfold HEAP_START BLOCK_SIZE
    omega
  · refine List.forall_mem_cons.mpr ⟨?_, fun c hc => Nat.le_trans (hi.hi c hc) (by omega)⟩
    show s.brk_limit + BLOCK_SIZE * pages ≤ s'.brk_limit
    rw [hb]
    unfold BLOCK_SIZE
    omega
  · -- the new chunk starts where all others have ended
    refine List.pairwise_cons.mpr ⟨fun d hd b h1 _ _ h4 => ?_, hi.apart⟩
    have := hi.hi d hd
    have : s.brk_limit ≤ b := h1
    omega

/-- The pages of the live chunks, with those of one chunk counted apart. -/
theorem sum_erase {c : Chunk} (hmem : c ∈ live) :
    (live.map Chunk.pages).sum = c.pages + ((live.erase c).map Chunk.pages).sum := by
  rw [((List.perm_cons_erase hmem).map Chunk.pages).sum_nat, List.map_cons, List.sum_cons]

theorem Inv.le_brk {c : Chunk} (hi : Inv s live) (hmem : c ∈ live) :
    4 * BLOCK_SIZE * c.pages ≤ s.brk_limit := by
  rw [hi.brk, sum_erase hmem, Nat.mul_add]
  omega

theorem Inv.free {c : Chunk} {r : Nat} (hi : Inv s live) (hmem : c ∈ live)
    (hc : CallOk s live (.free c)) (hok : liballoc_free AddrSpace.paging s c.addr c.pages = .ok (r, s')) :
    Inv s' (live.erase c) := by
  have hb := liballoc_free_brk hok (hi.le_brk hmem) hi.lt
  have hbrk := hi.brk
  have hlt := hi.lt
  have hmem' : ∀ d ∈ live.erase c, d ∈ live := fun d hd => List.mem_of_mem_erase hd
  refine ⟨?_, by omega, fun d hd => hi.lo d (hmem' d hd), fun d hd => hi.aligned d (hmem' d hd),
    fun d hd => ?_, hi.apart.sublist List.erase_sublist⟩
  · rw [hb, hbrk, sum_erase hmem, Nat.mul_add]
    omega
  · have := hc d hd
    omega

/-- The invariant holds along every run whose calls are `CallOk`. -/
theorem HeapRun.inv (hrun : HeapRun CallOk s live) : Inv s live := by
  induction hrun with
  | start hb => exact .start hb
  | alloc _ hc hok ha ih => exact ih.alloc hc hok ha
  | free _ hmem hc hok ih => exact ih.free hmem hc hok

/-- A free leaves the pages of the other live chunks mapped as they were. -/
theorem Inv.free_frame {c d : Chunk} {r q : Nat} (hi : Inv s live) (hmem : c ∈ live)
    (hc : CallOk s live (.free c)) (hok : liballoc_free AddrSpace.paging s c.addr c.pages = .ok (r, s'))
    (hd : d ∈ live.erase c) (hq : d.HasPage q) : s'.pmm.space.frame? q = s.pmm.space.frame? q := by
  have hd' : d ∈ live := List.mem_of_mem_erase hd
  have hlo := hi.lo d hd'
  have hal := hi.aligned d hd'
  have hfin := hc d hd
  obtain ⟨a, rfl, h1, h2⟩ := hq
  refine liballoc_free_frame hok (hi.le_brk hmem) hi.lt ?_ ?_
  · unfold HEAP_START BLOCK_SIZE at *
    omega
  · unfold Chunk.fin at h2 hfin
    unfold BLOCK_SIZE at *
    omega

/-- **Live chunks.** In every run whose calls are `CallOk`, live chunks share no byte, and freeing
one of them keeps every page of the others mapped. -/
theorem live_chunks_apart (hrun : HeapRun CallOk s live) :
    live.Pairwise Chunk.Apart ∧
    ∀ c ∈ live, CallOk s live (.free c) →
      ∀ r s', liballoc_free AddrSpace.paging s c.addr c.pages = .ok (r, s') →
        ∀ d ∈ live.erase c, ∀ q, d.HasPage q → s'.pmm.space.frame? q = s.pmm.space.frame? q :=
  ⟨hrun.inv.apart, fun _ hmem hc _ _ hok _ hd _ hq => hrun.inv.free_frame hmem hc hok hd hq⟩

/-- A heap over an empty address space whose manager has the blocks 3 to 9 to give. -/
def boot : State AddrSpace where
  pmm := ⟨fun i => if i = 0 then 0xFFFFFC07#32 else if i < 128 then 0xFFFFFFFF#32 else 0#32, 0, true,
    ⟨fun _ => 0, fun _ _ => 0⟩⟩
  brk_limit := HEAP_START + BLOCK_SIZE
  has_mapped := false

/-- Two allocations, the second one freed first. -/
theorem live_chunks_apart_two : ∃ s s' r, HeapRun CallOk s [⟨0xD0005000, 1⟩, ⟨0xD0001000, 1⟩] ∧
    liballoc_free AddrSpace.paging s 0xD0005000 1 = .ok (r, s') ∧
    ∀ q, (⟨0xD0001000, 1⟩ : Chunk).HasPage q → s'.pmm.space.frame? q = s.pmm.space.frame? q := by
  have hcalls : (do
      let a ← liballoc_alloc AddrSpace.paging boot 1
      let b ← liballoc_alloc AddrSpace.paging a.2 1
      let c ← liballoc_free AddrSpace.paging b.2 0xD0005000 1
      pure (a.1, b.1, c.1)).toOption = some (0xD0001000, 0xD0005000, 1) := by decide +kernel
  obtain ⟨⟨ra, a⟩, ha, hcalls⟩ := bind_toOption_eq_some.mp hcalls
  obtain ⟨⟨rb, b⟩, hb, hcalls⟩ := bind_toOption_eq_some.mp hcalls
  obtain ⟨⟨rc, c⟩, hc, hcalls⟩ := bind_toOption_eq_some.mp hcalls
  cases Option.some.inj hcalls
  have hbrk0 : boot.brk_limit = 0xD0001000 := rfl
  have hrun0 : HeapRun CallOk boot [] := .start rfl
  have hrun1 := hrun0.alloc (show boot.brk_limit + 0x4000 * 1 < 2 ^ 32 by omega) ha (by decide)
  have hbrk1 : a.brk_limit = 0xD0005000 := hrun1.inv.brk
  have hrun2 := hrun1.alloc (show a.brk_limit + 0x4000 * 1 < 2 ^ 32 by omega) hb (by decide)
  have hbrk2 : b.brk_limit = 0xD0009000 := hrun2.inv.brk
  have hfree : CallOk b [⟨0xD0005000, 1⟩, ⟨0xD0001000, 1⟩] (.free ⟨0xD0005000, 1⟩) := by
    intro d hd
    rw [hbrk2]
    rw [List.erase_cons_head, List.mem_singleton] at hd
    subst hd
    decide
  exact ⟨b, c, 1, hrun2, hc, (live_chunks_apart hrun2).2 _ (by simp) hfree 1 c hc _ (by decide)⟩

/-- Two allocations, the first one freed first; the next allocation answers the second chunk. -/
theorem live_chunks_overlap : ∃ s, HeapRun (fun _ _ _ => True) s [⟨0xD0005000, 1⟩, ⟨0xD0005000, 1⟩] ∧
    ¬ [(⟨0xD0005000, 1⟩ : Chunk), ⟨0xD0005000, 1⟩].Pairwise Chunk.Apart := by
  have hcalls : (do
      let a ← liballoc_alloc AddrSpace.paging boot 1
      let b ← liballoc_alloc AddrSpace.paging a.2 1
      let c ← liballoc_free AddrSpace.paging b.2 0xD0001000 1
      let d ← liballoc_alloc AddrSpace.paging c.2 1
      pure (a.1, b.1, d.1)).toOption = some (0xD0001000, 0xD0005000, 0xD0005000) := by decide +kernel
  obtain ⟨⟨ra, a⟩, ha, hcalls⟩ := bind_toOption_eq_some.mp hcalls
  obtain ⟨⟨rb, b⟩, hb, hcalls⟩ := bind_toOption_eq_some.mp hcalls
  obtain ⟨⟨rc, c⟩, hc, hcalls⟩ := bind_toOption_eq_some.mp hcalls
  obtain ⟨⟨rd, d⟩, hd, hcalls⟩ := bind_toOption_eq_some.mp hcalls
  cases Option.some.inj hcalls
  have hrun0 : HeapRun (fun _ _ _ => True) boot [] := .start rfl
  have hrun2 := (hrun0.alloc trivial ha (by decide)).alloc trivial hb (by decide)
  have hrun3 := hrun2.free (show (⟨0xD0001000, 1⟩ : Chunk) ∈ _ by simp) trivial hc
  refine ⟨d, hrun3.alloc trivial hd (by decide), fun hp => ?_⟩
  have hapart := (List.pairwise_cons.mp hp).1 _ (List.mem_singleton.mpr rfl)
  exact hapart 0xD0005000 (by decide) (by decide) (by decide) (by decide)

end Condor.Heap
