import Condor.Heap.Accounts
import Condor.Heap.Kernel

/-!
# What users can rely on

The results about whole runs of the heap, from its first call on, over any hooks that are
`Sound`: blocks stay apart and keep their bytes, everything is given back, every call ends,
and no pages are asked for while there is room. `kernel_heap_run` is what they come to for
the hooks of the kernel, and `calls_leave_interrupts_off` is the price of the lock. Each result
is followed by what it says of a heap of the kernel with one or two blocks.
-/

namespace Condor.Heap

open Lib Lib.Prog Liballoc

/-! ## A heap with two blocks -/

/-- The blocks from 3 to 127 are free, and the heap is not mapped. -/
def fresh_space : State AddrSpace where
  pmm := ⟨fun i => if i = 0 then 0x7#32 else if i < 4 then 0#32 else if i < 128 then 0xFFFFFFFF#32 else 0#32,
    0, true, ⟨fun _ => 0, fun _ _ => 0⟩⟩
  brk_limit := HEAP_START + BLOCK_SIZE
  has_mapped := false

/-- New pages are zero. -/
def clear_hooks : Hooks Halt Monitor := kernel_hooks fun _ _ => 0

theorem clear_hooks_sound : clear_hooks.Sound Ready := kernel_hooks_sound _

theorem fresh_ready : Ready (fresh_space, []) [] := ⟨.start rfl, rfl, nofun⟩

abbrev boot_heap : Liballoc.State Monitor := .fresh (fun _ => 0) ⟨0x200#32, 0#32⟩ (fresh_space, [])

/-- The heap after a `kmalloc` that answered `p`. -/
def taken (t : Liballoc.State Monitor × Set (Lease 32)) (n p : Word) : Liballoc.State Monitor × Set (Lease 32) :=
  (((kmalloc clear_hooks n).run t.1).2, Event.after t.2 (.malloc n.toNat p))

/-- The heap after a `kfree`. -/
def given_back (t : Liballoc.State Monitor × Set (Lease 32)) (p : Word) : Liballoc.State Monitor × Set (Lease 32) :=
  (((kfree clear_hooks p).run t.1).2, Event.after t.2 (.free p))

theorem taken_step (t : Liballoc.State Monitor × Set (Lease 32)) (n p : Word) (hn : n.toNat + 80 < 2 ^ 32)
    (h : ((kmalloc clear_hooks n).run t.1).1.toOption = some p) :
    Within (Step clear_hooks) (fun t e => Allowed t.2 e) t (.malloc n.toNat p) (taken t n p) :=
  ⟨.malloc hn, .malloc (run_of_result h), rfl⟩

theorem given_back_step {t : Liballoc.State Monitor × Set (Lease 32)} {ℓ : Lease 32} (hℓ : ℓ ∈ t.2)
    (h : ((kfree clear_hooks ℓ.pointer).run t.1).1.toOption = some ()) :
    Within (Step clear_hooks) (fun t e => Allowed t.2 e) t (.free ℓ.pointer) (given_back t ℓ.pointer) :=
  ⟨.free (.inr ⟨ℓ, hℓ, rfl⟩), .free (run_of_result h), rfl⟩

def long_lease : Lease 32 := ⟨0xD0001040#32, 100⟩
def short_lease : Lease 32 := ⟨0xD00010E0#32, 5⟩

def one_block : Liballoc.State Monitor × Set (Lease 32) := taken (boot_heap, ∅) 100 long_lease.pointer
def two_blocks : Liballoc.State Monitor × Set (Lease 32) := taken one_block 5 short_lease.pointer

theorem one_block_run : UserRun clear_hooks (boot_heap, ∅) [.malloc 100 long_lease.pointer] one_block :=
  .snoc .nil (taken_step _ 100 _ (by decide) (by decide +kernel))

theorem two_blocks_run : UserRun clear_hooks (boot_heap, ∅)
    [.malloc 100 long_lease.pointer, .malloc 5 short_lease.pointer] two_blocks :=
  one_block_run.snoc (taken_step _ 5 _ (by decide) (by decide +kernel))

theorem mem_two_blocks {ℓ : Lease 32} : ℓ ∈ two_blocks.2 ↔ ℓ = short_lease ∨ ℓ = long_lease := by
  have hshort : (Event.malloc (5 : Word).toNat short_lease.pointer).granted = some short_lease := by decide
  have hlong : (Event.malloc (100 : Word).toNat long_lease.pointer).granted = some long_lease := by decide
  constructor
  · rintro (h | ⟨h | ⟨h, -⟩, -⟩)
    · exact .inl (Option.some.inj (h.symm.trans hshort))
    · exact .inr (Option.some.inj (h.symm.trans hlong))
    · exact h.elim
  · rintro (rfl | rfl)
    · exact .inl hshort
    · exact .inr ⟨.inl hlong, nofun⟩

/-! ## Runs -/

section
variable {ε σ : Type} {H : Hooks ε σ} {I : σ → List Pages → Prop} {t t' : Liballoc.State σ × Set (Lease 32)}
  {es es' : List (Event 32)} {memory : Memory 32} {flags : Hal.Flags} {pages : σ} {ℓ : Lease 32} {x n p : Word}
  {s' : Liballoc.State σ}

/-- **The heap keeps its promises**: a run of it is one that an allocator promises, and what has been allocated
and not freed lies apart, at multiples of 16. -/
theorem heap_run_promised (hH : H.Sound I) (hI : I pages [])
    (h : UserRun H (.fresh memory flags pages, ∅) es t) :
    Run (Promised 16) ⟨∅, memory⟩ es ⟨t.2, t.1.memory⟩ ∧ Book.Sound 16 ⟨t.2, t.1.memory⟩ := by
  have hrun := (UserRun.promised hH h (holds_fresh hI)).2
  exact ⟨hrun, Run.sound hrun (Book.sound_nothing memory)⟩

theorem heap_run_promised_two : Book.Sound 16 ⟨two_blocks.2, two_blocks.1.memory⟩ ∧
    long_lease ∈ two_blocks.2 ∧ short_lease ∈ two_blocks.2 :=
  ⟨(heap_run_promised clear_hooks_sound fresh_ready two_blocks_run).2, mem_two_blocks.mpr (.inr rfl),
    mem_two_blocks.mpr (.inl rfl)⟩

/-- A byte of an allocated block keeps what its owner wrote, whatever is called in between. -/
theorem heap_run_content (hH : H.Sound I) (hI : I pages [])
    (h : UserRun H (.fresh memory flags pages, ∅) es t) (h' : UserRun H t es' t') (hℓ : ℓ ∈ t.2) (hx : ℓ.Has x)
    (hends : ∀ e ∈ es', e.ended ≠ some ℓ.pointer) (hwrites : ∀ e ∈ es', ¬ e.Writes x) :
    ℓ ∈ t'.2 ∧ t'.1.memory x = t.1.memory x :=
  Run.content (UserRun.promised hH h' (UserRun.holds hH hI h)).2 hℓ hx hends hwrites

/-- Byte 3 of the long block is written. -/
def written : Liballoc.State Monitor × Set (Lease 32) :=
  ({ one_block.1 with memory := Function.update one_block.1.memory 0xD0001043#32 7#8 },
    Event.after one_block.2 (.write 0xD0001043#32 7#8))

/-- The byte is what it was after the short block was allocated and freed. -/
theorem heap_run_content_written :
    (given_back (taken written 5 short_lease.pointer) short_lease.pointer).1.memory 0xD0001043#32 = 7#8 := by
  have hlong : long_lease ∈ one_block.2 := .inl (by decide)
  have hx : long_lease.Has 0xD0001043#32 := ⟨by decide, by decide⟩
  have hwritten : long_lease ∈ written.2 := .inr ⟨hlong, nofun⟩
  have hshort : short_lease ∈ (taken written 5 short_lease.pointer).2 := .inl (by decide)
  have hrun : UserRun clear_hooks (boot_heap, ∅) [.malloc 100 long_lease.pointer, .write 0xD0001043#32 7#8] written :=
    one_block_run.snoc ⟨.write ⟨long_lease, hlong, hx⟩, .write, rfl⟩
  have hlater : UserRun clear_hooks written [.malloc 5 short_lease.pointer, .free short_lease.pointer]
      (given_back (taken written 5 short_lease.pointer) short_lease.pointer) :=
    .snoc (.snoc .nil (taken_step _ 5 _ (by decide) (by decide +kernel))) (given_back_step hshort (by decide +kernel))
  have hcontent := heap_run_content clear_hooks_sound fresh_ready hrun hlater hwritten hx (by decide) (by
    rintro e he ⟨c, rfl⟩
    simp at he)
  have hbyte : written.1.memory 0xD0001043#32 = 7#8 := by decide +kernel
  exact hcontent.2.trans hbyte

/-- Once everything has been freed, all pages have been given back. -/
theorem heap_run_released (hH : H.Sound I) (hI : I pages [])
    (h : UserRun H (.fresh memory flags pages, ∅) es t) (hnone : t.2 = ∅) :
    t.1.l_memRoot = NULL ∧ t.1.l_allocated = 0 ∧ t.1.l_inuse = 0 ∧ I t.1.pages [] := by
  have hholds := UserRun.holds hH hI h
  rw [hnone] at hholds
  exact hholds.released

theorem heap_run_released_one :
    let freed := given_back one_block long_lease.pointer
    freed.1.l_memRoot = NULL ∧ freed.1.l_allocated = 0 ∧ freed.1.l_inuse = 0 ∧ Ready freed.1.pages [] := by
  intro freed
  have hlong : long_lease ∈ one_block.2 := .inl (by decide)
  have hrun : UserRun clear_hooks (boot_heap, ∅) [.malloc 100 long_lease.pointer, .free long_lease.pointer] freed :=
    one_block_run.snoc (given_back_step hlong (by decide +kernel))
  refine heap_run_released clear_hooks_sound fresh_ready hrun (Set.eq_empty_of_forall_notMem fun ℓ hℓ => ?_)
  rcases hℓ with h | ⟨h | ⟨h, -⟩, hne⟩
  · cases h
  · cases h.symm.trans (show _ = some long_lease by decide)
    exact hne rfl
  · exact h

/-- The counters are what the hooks have given and what is in use. -/
theorem heap_run_accounts (hH : H.Sound I) (hI : I pages [])
    (h : UserRun H (.fresh memory flags pages, ∅) es t) :
    ∃ (chunks : List Pages) (held : List (Lease 32)), I t.1.pages chunks ∧ held.Nodup ∧ (∀ ℓ, ℓ ∈ held ↔ ℓ ∈ t.2) ∧
      (∀ ℓ ∈ held, ∃ p ∈ chunks, ∀ x, ℓ.Has x → p.Has x) ∧
      t.1.l_allocated.toNat = (chunks.map fun p => 4096 * p.count.toNat).sum ∧
      (held.map fun ℓ => ℓ.length + 32).sum ≤ t.1.l_inuse.toNat ∧
      t.1.l_inuse.toNat + 24 * held.length + 24 * chunks.length ≤ t.1.l_allocated.toNat :=
  (UserRun.holds hH hI h).accounts

theorem heap_run_accounts_two : ∃ (chunks : List Pages) (held : List (Lease 32)),
    Ready two_blocks.1.pages chunks ∧ held.Nodup ∧ (∀ ℓ, ℓ ∈ held ↔ ℓ ∈ two_blocks.2) ∧
      (∀ ℓ ∈ held, ∃ p ∈ chunks, ∀ x, ℓ.Has x → p.Has x) ∧
      two_blocks.1.l_allocated.toNat = (chunks.map fun p => 4096 * p.count.toNat).sum ∧
      (held.map fun ℓ => ℓ.length + 32).sum ≤ two_blocks.1.l_inuse.toNat ∧
      two_blocks.1.l_inuse.toNat + 24 * held.length + 24 * chunks.length ≤ two_blocks.1.l_allocated.toNat :=
  heap_run_accounts clear_hooks_sound fresh_ready two_blocks_run

/-- Every request ends: the loops of the allocator do, and only a hook may stop it. -/
theorem heap_run_ends (hH : H.Sound I) (hI : I pages [])
    (h : UserRun H (.fresh memory flags pages, ∅) es t) :
    (∀ n : Word, n.toNat + 80 < 2 ^ 32 → Ends IsHook (kmalloc H n) t.1 fun _ _ => True) ∧
      (∀ nobj size : Word, (nobj * size).toNat + 80 < 2 ^ 32 →
        Ends IsHook (kcalloc H nobj size) t.1 fun _ _ => True) ∧
      (∀ ℓ ∈ t.2, ∀ n : Word, n.toNat + 80 < 2 ^ 32 →
        Ends IsHook (krealloc H ℓ.pointer n) t.1 fun _ _ => True) ∧
      ∀ p : Word, Ends IsHook (kfree H p) t.1 fun _ _ => True := by
  obtain ⟨L, hgood, -, hleases⟩ := UserRun.holds hH hI h
  refine ⟨fun n hn => (kmalloc_ends hH hgood hn).imp fun _ _ _ => trivial,
    fun nobj size hn => (kcalloc_ends hH hgood hn).imp fun _ _ _ => trivial, fun ℓ hℓ n hn => ?_,
    fun p => kfree_returns p t.1⟩
  rw [← hleases] at hℓ
  obtain ⟨b, hb, rfl⟩ := hℓ
  exact (krealloc_ends hH hgood hb hn).imp fun _ _ _ => trivial

theorem heap_run_ends_two : Ends IsHook (krealloc clear_hooks short_lease.pointer 70000) two_blocks.1 fun _ _ => True :=
  (heap_run_ends clear_hooks_sound fresh_ready two_blocks_run).2.2.1 short_lease (mem_two_blocks.mpr (.inl rfl)) _
    (by decide)

/-- `kmalloc` fails or turns to the hooks only if no gap between the blocks is long enough. -/
theorem heap_run_full (hH : H.Sound I) (hI : I pages []) (h : UserRun H (.fresh memory flags pages, ∅) es t)
    (hn : n.toNat + 80 < 2 ^ 32) (hrun : (kmalloc H n).run t.1 = (.ok p, s'))
    (hmore : p = NULL ∨ s'.pages ≠ t.1.pages) :
    ∃ L, Rep t.1 L ∧ leases L = t.2 ∧ ∀ r ∈ L, ¬ r.HasRoom (n.toNat + 56) := by
  obtain ⟨L, hgood, -, hleases⟩ := UserRun.holds hH hI h
  have hneed : (padded n).toNat + 24 = n.toNat + 56 := by
    unfold padded
    rw [BitVec.toNat_add, show (ALIGNMENT + ALIGN_INFO).toNat = 32 from rfl]
    omega
  refine ⟨L, hgood.rep, hleases, ?_⟩
  rw [← hneed]
  cases (kmalloc_ends hH hgood hn).ok hrun with
  | placed pre r post p s' hL hplaced =>
    cases hplaced with
    | intro xs b ys s' hgap hreq hsize hgood' hkept hsame =>
      have hb : b ∈ blocks (pre ++ r.holding (xs ++ b :: ys) :: post) :=
        mem_blocks.mpr ⟨r.holding (xs ++ b :: ys), by simp, by simp [Region.holding]⟩
      exact (hmore.elim (hgood'.rep.ok.payload_ne hb) fun hne => hne hsame).elim
  | grown _ _ _ _ hfull => exact hfull
  | refused _ hfull => exact hfull

/-- 70000 bytes are more than the rest of the first chunk. -/
theorem heap_run_full_two :
    ∃ L, Rep two_blocks.1 L ∧ leases L = two_blocks.2 ∧ ∀ r ∈ L, ¬ r.HasRoom (70000 + 56) := by
  have hrun : ((kmalloc clear_hooks 70000).run two_blocks.1).1.toOption = some 0xD0041040#32 := by decide +kernel
  have hpages : ((kmalloc clear_hooks 70000).run two_blocks.1).2.pages.1.brk_limit ≠
      two_blocks.1.pages.1.brk_limit := by decide +kernel
  exact heap_run_full clear_hooks_sound fresh_ready two_blocks_run (by decide) (run_of_result hrun)
    (.inr fun heq => hpages (by rw [heq]))

/-- Nobody tests whether `kcalloc` was refused: it then clears the memory from address 0 on. -/
theorem kcalloc_refused {nobj size : Word} (hH : H.Sound I) (hI : I pages [])
    (h : UserRun H (.fresh memory flags pages, ∅) es t) (hn : (nobj * size).toNat + 80 < 2 ^ 32)
    (hrun : (kcalloc H nobj size).run t.1 = (.ok NULL, s')) :
    ∀ x, Among NULL (nobj * size).toNat x → s'.memory x = 0 := by
  obtain ⟨_, hgood, -, -⟩ := UserRun.holds hH hI h
  obtain ⟨s₁, -, rfl⟩ := (kcalloc_ends hH hgood hn).ok hrun
  intro x hx
  exact if_pos ((lt_iff_among (by rw [toNat_NULL]; omega) x).mpr hx)

/-- Hooks without memory. -/
def no_pages : Hooks Unit Unit where
  liballoc_alloc _ t := .ok (NULL, t)
  liballoc_free _ _ t := .ok (0, t)

theorem no_pages_sound : no_pages.Sound fun _ live => live = [] where
  pos := by
    rintro _ _ rfl
    exact nofun
  high := by
    rintro _ _ rfl
    exact nofun
  away := by
    rintro _ _ rfl
    exact .nil
  alloc := by
    rintro _ _ _ _ _ _ _ rfl h
    cases h
    exact ⟨nofun, .inl ⟨rfl, rfl⟩⟩
  free := by
    rintro _ _ _ _ _ _ _ rfl hp
    exact absurd hp List.not_mem_nil

/-- Three words of 4 bytes are cleared at address 0. -/
theorem kcalloc_refused_twelve :
    let s' := ((kcalloc no_pages 3 4).run (.fresh (fun _ => 1) ⟨0, 0⟩ ())).2
    ∀ x, Among NULL 12 x → s'.memory x = 0 := by
  have hrun : ((kcalloc no_pages 3 4).run (.fresh (fun _ => 1) ⟨0, 0⟩ ())).1.toOption = some NULL := by decide +kernel
  exact kcalloc_refused no_pages_sound rfl .nil (by decide) (run_of_result hrun)

/-- A `kfree` of memory that was freed before, while its region is in use, only counts an error. -/
theorem kfree_twice {pre post : List Region} {r : Region} {xs ys : List Block} {b : Block}
    {s s₁ : Liballoc.State σ} (hH : H.Sound I) (h : Good I s (pre ++ r :: post)) (hblocks : r.blocks = xs ++ b :: ys)
    (hne : xs ++ ys ≠ []) (hrun : (kfree H b.payload).run s = (.ok (), s₁)) :
    (kfree H b.payload).run s₁ = (.ok (), { s₁ with
      l_errorCount := s₁.l_errorCount + 1
      flags := s₁.flags.hal_disableInterrupts.hal_restoreInterrupts }) := by
  have hb := (h.rep.ok.regions r (by simp)).block (b := b) (by simp [hblocks])
  cases (kfree_ends hH h hblocks).ok hrun with
  | released hempty => exact absurd hempty hne
  | kept _ hgood hkept hpages hdead hmark =>
    have hunalign : (UNALIGN b.payload : Code ε σ Word).run s₁ = (.ok (b.addr + sizeof_minor), s₁) :=
      UNALIGN_aligned hmark
    have hheader : b.addr + sizeof_minor - sizeof_minor = b.addr := BitVec.add_sub_cancel ..
    have hlied := kfree_lied (H := H) hb.payload_ne hunalign (by rw [hheader, hdead]; decide)
    rw [hlied, hheader, hdead]
    rfl

/-- Only the short block is in use. -/
def long_freed : Liballoc.State Monitor := (given_back two_blocks long_lease.pointer).1

theorem kfree_twice_long :
    (kfree clear_hooks long_lease.pointer).run long_freed = (.ok (), { long_freed with
      l_errorCount := long_freed.l_errorCount + 1
      flags := long_freed.flags.hal_disableInterrupts.hal_restoreInterrupts }) := by
  obtain ⟨L, hgood, -, hleases⟩ := UserRun.holds clear_hooks_sound fresh_ready two_blocks_run
  obtain ⟨chunks, hready, hperm⟩ := hgood.given
  have hone : L.length = 1 := by
    have hgiven : two_blocks.1.pages.2.length = 1 := by decide +kernel
    have hlength := hperm.length_eq
    rw [← hready.given, List.length_map] at hlength
    exact hlength.symm.trans hgiven
  obtain ⟨r, rfl⟩ := List.length_eq_one_iff.mp hone
  have hmem : ∀ ℓ ∈ two_blocks.2, ∃ b ∈ r.blocks, b.lease = ℓ := by
    rw [← hleases]
    rintro ℓ ⟨b, hb, rfl⟩
    exact ⟨b, by simpa [mem_blocks] using hb, rfl⟩
  obtain ⟨b, hb, hlong⟩ := hmem long_lease (mem_two_blocks.mpr (.inr rfl))
  obtain ⟨c, hc, hshort⟩ := hmem short_lease (mem_two_blocks.mpr (.inl rfl))
  obtain ⟨xs, ys, hsplit⟩ := List.append_of_mem hb
  have hne : xs ++ ys ≠ [] := by
    intro hempty
    obtain ⟨rfl, rfl⟩ := List.append_eq_nil_iff.mp hempty
    rw [hsplit] at hc
    obtain rfl := List.mem_singleton.mp hc
    exact absurd (hlong.symm.trans hshort) (by decide)
  have hgood' : Good Ready two_blocks.1 ([] ++ r :: []) := hgood
  have hok : ((kfree clear_hooks long_lease.pointer).run two_blocks.1).1.toOption = some () := by decide +kernel
  have hrun : (kfree clear_hooks long_lease.pointer).run two_blocks.1 = (.ok (), long_freed) := run_of_result hok
  have hpayload : b.payload = long_lease.pointer := congrArg Lease.pointer hlong
  rw [← hpayload] at hrun ⊢
  exact kfree_twice clear_hooks_sound hgood' hsplit hne hrun

/-- Whatever the interrupt flag was, it is clear after a call that took the lock. -/
theorem calls_leave_interrupts_off (H : Hooks ε σ) (s : Liballoc.State σ) :
    (∀ n p s', (kmalloc H n).run s = (.ok p, s') → s'.flags.enabled = false) ∧
      (∀ nobj size p s', (kcalloc H nobj size).run s = (.ok p, s') → s'.flags.enabled = false) ∧
      (∀ p n q s', p ≠ NULL ∨ n ≠ 0 → (krealloc H p n).run s = (.ok q, s') → s'.flags.enabled = false) ∧
      ∀ p s', p ≠ NULL → (kfree H p).run s = (.ok (), s') → s'.flags.enabled = false := by
  refine ⟨fun n p s' h => ?_, fun nobj size p s' h => ?_, fun p n q s' hp h => ?_, fun p s' hp h => ?_⟩
  · exact ((kmalloc_sections n s.flags).ok rfl h).off (by decide)
  · exact ((kcalloc_sections nobj size s.flags).ok rfl h).off (by decide)
  · exact ((krealloc_sections hp s.flags).ok rfl h).off (by decide)
  · exact ((kfree_sections hp s.flags).ok rfl h).off (by decide)

theorem calls_leave_interrupts_off_one :
    (boot_heap.flags.enabled = true ∧ one_block.1.flags.enabled = false) ∧
      (given_back one_block long_lease.pointer).1.flags.enabled = false := by
  have hmalloc : ((kmalloc clear_hooks 100).run boot_heap).1.toOption = some long_lease.pointer := by decide +kernel
  have hfree : ((kfree clear_hooks long_lease.pointer).run one_block.1).1.toOption = some () := by decide +kernel
  exact ⟨⟨by decide, (calls_leave_interrupts_off clear_hooks boot_heap).1 100 _ _ (run_of_result hmalloc)⟩,
    (calls_leave_interrupts_off clear_hooks one_block.1).2.2.2 _ _ (by decide) (run_of_result hfree)⟩

end

/-! ## The kernel -/

section
variable {s : State AddrSpace} {t : Liballoc.State Monitor × Set (Lease 32)} {es : List (Event 32)}
  {memory : Memory 32} {flags : Hal.Flags}

/-- **The heap of the kernel.** Blocks lie apart, and between the start of the heap and the break; once all of
them have been freed the break is where it was. -/
theorem kernel_heap_run (junk : State AddrSpace → Memory 32) (hb : s.brk_limit = HEAP_START + BLOCK_SIZE)
    (h : UserRun (kernel_hooks junk) (.fresh memory flags (s, []), ∅) es t) :
    Book.Sound 16 ⟨t.2, t.1.memory⟩ ∧
      (∀ ℓ ∈ t.2, HEAP_START + BLOCK_SIZE ≤ ℓ.pointer.toNat ∧
        ℓ.pointer.toNat + ℓ.length ≤ t.1.pages.1.brk_limit) ∧
      (t.2 = ∅ → t.1.pages.1.brk_limit = HEAP_START + BLOCK_SIZE) := by
  have hready : Ready (s, []) [] := ⟨.start hb, rfl, nofun⟩
  have hrun := (UserRun.promised (kernel_hooks_sound junk) h (holds_fresh hready)).2
  have hholds := UserRun.holds (kernel_hooks_sound junk) hready h
  refine ⟨Run.sound hrun (Book.sound_nothing memory), fun ℓ hℓ => ?_, fun hnone => ?_⟩
  · obtain ⟨L, hgood, -, hleases⟩ := hholds
    obtain ⟨chunks, hchunks, hperm⟩ := hgood.given
    rw [← hleases] at hℓ
    obtain ⟨b, hb, rfl⟩ := hℓ
    obtain ⟨r, hr, hbr⟩ := mem_blocks.mp hb
    have hin := (hgood.rep.ok.regions r hr).block hbr
    have hmem : chunk r.given ∈ chunks.map chunk :=
      List.mem_map_of_mem (hperm.mem_iff.mpr (List.mem_map_of_mem hr))
    have hlo : HEAP_START + BLOCK_SIZE ≤ r.addr.toNat := hchunks.inv.lo _ hmem
    have hhi : r.fin ≤ t.1.pages.1.brk_limit := hchunks.inv.hi _ hmem
    have h1 := hin.payload_inside
    have h2 := hin.lo
    have h3 := hin.hi
    unfold Block.fin at h1
    show _ ≤ b.payload.toNat ∧ b.payload.toNat + b.req.toNat ≤ _
    omega
  · rw [hnone] at hholds
    have hbrk := hholds.released.2.2.2.inv.brk
    rw [hbrk]
    rfl

theorem kernel_heap_run_two : Book.Sound 16 ⟨two_blocks.2, two_blocks.1.memory⟩ ∧
    (∀ ℓ ∈ two_blocks.2, HEAP_START + BLOCK_SIZE ≤ ℓ.pointer.toNat ∧
      ℓ.pointer.toNat + ℓ.length ≤ two_blocks.1.pages.1.brk_limit) ∧
    (two_blocks.2 = ∅ → two_blocks.1.pages.1.brk_limit = HEAP_START + BLOCK_SIZE) :=
  kernel_heap_run (fun _ _ => 0) rfl two_blocks_run

end

end Condor.Heap
