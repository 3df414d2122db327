import Condor.Heap.AllocHooks

/-!
# What an allocation leaves

An allocation of `n` pages maps every fourth page from the old break on. The free
that follows it starts at the new break and ends above the old one, so it finds
other pages, and it answers 1 (`alloc_free_never`). An allocation that cannot be
supplied answers `0xFFFFFFFF` with the break moved, or the old break as if it had
been (`alloc_failure_never`).
-/

namespace Condor.Heap

open Lib

section
variable {σ : Type} {P : Paging σ} {s s' : State σ} {n a r : Nat}

theorem ptr_sub_ptr_add {p : Nat} (hp : p < 2 ^ 32) (x : Nat) : ptr_sub (ptr_add p x) x = p := by
  unfold ptr_sub ptr_add
  omega

theorem ensure_mapped_has_mapped (h : ensure_mapped P s = .ok s') : s'.has_mapped = true := by
  unfold ensure_mapped at h
  split at h
  · obtain ⟨t, -, h⟩ := bind_eq_ok.mp h
    cases h
    rfl
  · rename_i hm
    cases h
    simpa using hm

theorem ensure_mapped_of_mapped (h : s.has_mapped = true) : ensure_mapped P s = .ok s := by
  simp [ensure_mapped, h]

theorem map_page_has_mapped {page : Nat} (h : map_page P s page = .ok s') :
    s'.has_mapped = s.has_mapped := by
  unfold map_page at h
  obtain ⟨r, -, h⟩ := bind_eq_ok.mp h
  obtain ⟨m, -, h⟩ := bind_eq_ok.mp h
  cases h
  rfl

theorem Grown.has_mapped (h : Grown P s n a s') : s'.has_mapped = true := by
  cases h with
  | @limit t ht =>
    have hm : t.has_mapped = true := ensure_mapped_has_mapped ht
    exact hm
  | @pages t _ ht _ hloop =>
    have hm : t.has_mapped = true := ensure_mapped_has_mapped ht
    refine forUp_keeps (P := fun t : State σ => t.has_mapped = true) ?_
      (fun _ _ _ _ _ ht hb => (map_page_has_mapped hb).trans ht) hloop
    exact hm

/-- A free right after an allocation moves the break back. -/
theorem Shrunk.back {s₀ : State σ} (h : Shrunk P s n r s') (hg : Grown P s₀ n a s)
    (hlt : s₀.brk_limit < brk_hardLimit) : r = 1 ∧ s'.brk_limit = s₀.brk_limit := by
  have hmax : brk_hardLimit < 2 ^ 32 := by decide
  have hback := ptr_sub_ptr_add (p := s₀.brk_limit) (by omega) (blocks_size n)
  rw [← hg.brk] at hback
  refine ⟨?_, h.brk.trans hback⟩
  cases h with
  | limit _ hb => omega
  | pages => rfl

end

/-! ## Which pages change -/

section
variable {s s' : State AddrSpace} {n a r q : Nat}

/-- An allocation changes only every fourth page from the old break on, and the first heap page. -/
theorem Grown.frame (h : Grown AddrSpace.paging s n a s') (hq : Pmm.Outside q)
    (hne : q ≠ HEAP_START / 4096)
    (hfour : ∀ k, q ≠ s.brk_limit / 4096 + 4 * k) : s'.pmm.space.frame? q = s.pmm.space.frame? q := by
  cases h with
  | @limit t ht =>
    have hf : t.pmm.space.frame? q = s.pmm.space.frame? q := ensure_mapped_frame ht hq hne
    exact hf
  | @pages t _ ht _ hloop =>
    rw [← ensure_mapped_frame ht hq hne]
    refine forUp_keeps (P := fun u : State AddrSpace => u.pmm.space.frame? q = t.pmm.space.frame? q) ?_
      (fun i u u' _ _ hu hstep => (map_page_frame hstep hq ?_).trans hu) hloop
    · rfl
    · have hk := hfour i
      unfold BLOCK_SIZE
      omega

/-- A free changes no page below the first stride above the new break. -/
theorem Shrunk.frame (h : Shrunk AddrSpace.paging s n r s') (hm : s.has_mapped = true)
    (hq : Pmm.Outside q)
    (hlow : 4096 * q < ptr_sub s.brk_limit (blocks_size n) + 4096)
    (hfour : s.brk_limit % 0x4000 = ptr_sub s.brk_limit (blocks_size n) % 0x4000) :
    s'.pmm.space.frame? q = s.pmm.space.frame? q := by
  cases h with
  | limit ht =>
    rw [ensure_mapped_of_mapped hm] at ht
    cases ht
    rfl
  | pages ht _ hloop =>
    rw [ensure_mapped_of_mapped hm] at ht
    cases ht
    refine forUp_keeps (P := fun u : State AddrSpace => u.pmm.space.frame? q = s.pmm.space.frame? q) ?_
      (fun i u u' _ hi hu hstep => (unmap_page_frame hstep hq ?_).trans hu) hloop
    · rfl
    · unfold strides at hi
      unfold BLOCK_SIZE at *
      omega

end

/-! ## A chunk that is freed at once -/

/-- The pages of the chunk are present and writable, each with its own frame. -/
def Granted (s : State AddrSpace) (addr n : Nat) : Prop :=
  (∀ i < n, s.pmm.space.pte (addr / 4096 + i) &&& 3 = PAGE_PRESENT ||| PAGE_RW) ∧
  ∀ i < n, ∀ j < n, s.pmm.space.frame? (addr / 4096 + i) = s.pmm.space.frame? (addr / 4096 + j) → i = j

/-- Freeing the chunk succeeds and takes the heap back to `s`: the break, and which pages are
mapped, apart from the first heap page and the windows of the manager. -/
def Restores (s s' : State AddrSpace) (addr n : Nat) : Prop :=
  ∃ r s'', liballoc_free AddrSpace.paging s' addr n = .ok (r, s'') ∧ r = 0 ∧ s''.brk_limit = s.brk_limit ∧
    ∀ q, Pmm.Outside q → q ≠ HEAP_START / 4096 →
      ((s''.pmm.space.frame? q).isSome ↔ (s.pmm.space.frame? q).isSome)

section
variable {s s' : State AddrSpace} {n a : Nat}

theorem ptr_add_stride (p n : Nat) : ptr_add p (blocks_size n) % 0x4000 = p % 0x4000 := by
  unfold ptr_add blocks_size BLOCK_BITS
  rw [Nat.shiftLeft_eq]
  omega

/-- **Allocation and free.** No chunk is freed as it was allocated: the free answers 1 although it moves
the break back. The allocation has left all pages of the chunk but every fourth as they were, and the
free leaves the first one as the allocation has. -/
theorem alloc_free_never (hn : 1 ≤ n) (hroom : s.brk_limit + BLOCK_SIZE * n ≤ brk_hardLimit)
    (hok : liballoc_alloc AddrSpace.paging s n = .ok (a, s')) (ha : a ≠ 0xFFFFFFFF) :
    ¬ (Granted s' a n ∧ Restores s s' a n) ∧
    (∀ q, Pmm.Outside q → q ≠ HEAP_START / 4096 → (∀ k, q ≠ a / 4096 + 4 * k) →
      s'.pmm.space.frame? q = s.pmm.space.frame? q) ∧
    ∀ r s'', liballoc_free AddrSpace.paging s' a n = .ok (r, s'') →
      r = 1 ∧ s''.brk_limit = s.brk_limit ∧
        (Pmm.Outside (a / 4096) → s''.pmm.space.frame? (a / 4096) = s'.pmm.space.frame? (a / 4096)) := by
  have hlt : s.brk_limit < brk_hardLimit := by
    unfold BLOCK_SIZE at hroom
    omega
  have hmax : brk_hardLimit < 2 ^ 32 := by decide
  have hgrown := liballoc_alloc_cases hok
  have haddr : a = s.brk_limit := by
    cases hgrown with
    | limit => exact absurd rfl ha
    | pages => rfl
  subst haddr
  refine ⟨fun ⟨_, r, s'', hfree, hr, _⟩ => ?_, fun q => hgrown.frame, fun r s'' hfree => ?_⟩
  · have hone := ((liballoc_free_cases hfree).back hgrown hlt).1
    omega
  · have hshrunk := liballoc_free_cases hfree
    obtain ⟨hr, hbrk⟩ := hshrunk.back hgrown hlt
    refine ⟨hr, hbrk, fun hq => hshrunk.frame hgrown.has_mapped hq ?_ ?_⟩
    · rw [← hshrunk.brk, hbrk]
      omega
    · rw [← hshrunk.brk, hbrk, hgrown.brk, ptr_add_stride]

/-- Two pages from a fresh heap: the second one is not mapped, the free answers 1, and the first one stays
mapped. -/
theorem two_pages_not_restored : ∃ s s', liballoc_alloc AddrSpace.paging boot 2 = .ok (0xD0001000, s) ∧
    s.pmm.space.frame? 0xD0002 = none ∧ liballoc_free AddrSpace.paging s 0xD0001000 2 = .ok (1, s') ∧
    boot.pmm.space.frame? 0xD0001 = none ∧ s'.pmm.space.frame? 0xD0001 = some 4 := by
  have hcalls : (do
      let a ← liballoc_alloc AddrSpace.paging boot 2
      let b ← liballoc_free AddrSpace.paging a.2 0xD0001000 2
      pure (a.1, a.2.pmm.space.frame? 0xD0002, b.1, b.2.pmm.space.frame? 0xD0001)).toOption =
        some (0xD0001000, none, 1, some 4) := by decide +kernel
  obtain ⟨⟨ra, a⟩, ha, hcalls⟩ := bind_toOption_eq_some.mp hcalls
  obtain ⟨⟨rb, b⟩, hb, hcalls⟩ := bind_toOption_eq_some.mp hcalls
  simp only [pure, Except.pure, Except.toOption, Option.some.injEq, Prod.mk.injEq] at hcalls
  obtain ⟨rfl, hnone, rfl, hsome⟩ := hcalls
  exact ⟨a, b, ha, hnone, hb, rfl, hsome⟩

theorem alloc_free_never_two : ∃ a s', liballoc_alloc AddrSpace.paging boot 2 = .ok (a, s') ∧
    ¬ (Granted s' a 2 ∧ Restores boot s' a 2) := by
  obtain ⟨s', hs'⟩ : ∃ s', liballoc_alloc AddrSpace.paging boot 2 = .ok (0xD0001000, s') := by
    have hcall : ((liballoc_alloc AddrSpace.paging boot 2).map Prod.fst).toOption = some 0xD0001000 := by
      decide +kernel
    cases h : liballoc_alloc AddrSpace.paging boot 2 with
    | error e =>
      rw [h] at hcall
      cases hcall
    | ok r =>
      rw [h] at hcall
      exact ⟨r.2, by rw [← Option.some.inj hcall]⟩
  exact ⟨_, s', hs', (alloc_free_never (by decide) (by decide) hs' (by decide)).1⟩

end

/-! ## Allocations that cannot be supplied -/

/-- The states of the heap. -/
inductive Reached : State AddrSpace → Prop
  | start {s} (hb : s.brk_limit = HEAP_START + BLOCK_SIZE) : Reached s
  | alloc {s s' n a} (hs : Reached s) (h : liballoc_alloc AddrSpace.paging s n = .ok (a, s')) : Reached s'
  | free {s s' addr n r} (hs : Reached s) (h : liballoc_free AddrSpace.paging s addr n = .ok (r, s')) :
      Reached s'

section
variable {s : State AddrSpace} {n : Nat}

/-- Where the break goes, in numbers that do not wrap around. -/
def break_after (s : State AddrSpace) (n : Nat) : Nat := s.brk_limit + 4 * BLOCK_SIZE * n

/-- `pmalloc` has no frame for the page that turn `i` maps. -/
def NoFrame (s : State AddrSpace) (n i : Nat) : Prop :=
  i < n ∧ ∃ t u, forUp 0 i { s with brk_limit := break_after s n }
      (fun i t => map_page AddrSpace.paging t (s.brk_limit + 4 * BLOCK_SIZE * i)) = .ok t ∧
    Pmm.pmalloc AddrSpace.paging t.pmm = .ok (0xFFFFFFFF, u)

/-- Why a request is not supplied: the range passes the limit, its size wraps around, or a page gets no
frame. -/
inductive CannotSupply (s : State AddrSpace) (n : Nat) : Prop
  | limit (hge : brk_hardLimit ≤ break_after s n) (hlt : break_after s n < 2 ^ 32)
  | wraps (hge : 2 ^ 32 ≤ break_after s n)
  | frames (i : Nat) (hno : NoFrame s n i)

/-- The allocation answers `NULL` and leaves the heap as it was. -/
def FailsCleanly (s : State AddrSpace) (n : Nat) : Prop :=
  ∃ s', liballoc_alloc AddrSpace.paging s n = .ok (0, s') ∧ s'.brk_limit = s.brk_limit ∧
    ∀ q, s'.pmm.space.frame? q = s.pmm.space.frame? q

theorem ptr_sub_stride (p n : Nat) : ptr_sub p (blocks_size n) % 0x4000 = p % 0x4000 := by
  unfold ptr_sub blocks_size BLOCK_BITS
  rw [Nat.shiftLeft_eq]
  omega

/-- The break is never 0. -/
theorem Reached.stride (h : Reached s) : s.brk_limit % 0x4000 = 0x1000 := by
  induction h with
  | start hb =>
    rw [hb]
    rfl
  | alloc _ h ih => rw [(liballoc_alloc_cases h).brk, ptr_add_stride, ih]
  | free _ h ih => rw [(liballoc_free_cases h).brk, ptr_sub_stride, ih]

/-- A break behind the limit stays there, unless the request wraps around. -/
theorem alloc_beyond_limit (hm : s.has_mapped = true) (hb : brk_hardLimit ≤ s.brk_limit)
    (hn : s.brk_limit + 4 * BLOCK_SIZE * n < 2 ^ 32) :
    ∃ s', liballoc_alloc AddrSpace.paging s n = .ok (0xFFFFFFFF, s') := by
  have hge : brk_hardLimit ≤ ptr_add s.brk_limit (blocks_size n) := by
    rw [ptr_add_eq hn]
    omega
  refine ⟨{ s with brk_limit := ptr_add s.brk_limit (blocks_size n) }, ?_⟩
  refine bind_eq_ok.mpr ⟨s, ensure_mapped_of_mapped hm, ?_⟩
  simp only [psbrk, Bool.not_false, if_true]
  rw [if_pos hge]

theorem break_after_mod (s : State AddrSpace) (n : Nat) :
    ptr_add s.brk_limit (blocks_size n) = break_after s n % 2 ^ 32 := by
  unfold ptr_add blocks_size break_after BLOCK_BITS BLOCK_SIZE
  rw [Nat.shiftLeft_eq]
  omega

/-- The loop leaves a page as it was that gets no frame. -/
theorem loop_without_frame {i k q : Nat} {s' : State AddrSpace} (hno : NoFrame s n i)
    (hloop : forUp 0 n { s with brk_limit := break_after s n }
      (fun i t => map_page AddrSpace.paging t (s.brk_limit + 4 * BLOCK_SIZE * i)) = .ok s')
    (hk : s.brk_limit = 4096 * k) (hq : q = k + 4 * i) (hout : Pmm.Outside q) :
    s'.pmm.space.frame? q = s.pmm.space.frame? q := by
  obtain ⟨hi, t, u, hbefore, hfail⟩ := hno
  have hother : ∀ j, j ≠ i → q ≠ (s.brk_limit + 4 * BLOCK_SIZE * j) / 4096 := fun j hj => by
    unfold BLOCK_SIZE
    omega
  rw [forUp_append (Nat.zero_le i) (Nat.le_of_lt hi)] at hloop
  obtain ⟨t', ht', hloop⟩ := bind_eq_ok.mp hloop
  cases hbefore.symm.trans ht'
  rw [forUp_of_lt hi] at hloop
  obtain ⟨v, hturn, hafter⟩ := bind_eq_ok.mp hloop
  have h1 : t.pmm.space.frame? q = s.pmm.space.frame? q := by
    refine forUp_keeps (P := fun w : State AddrSpace => w.pmm.space.frame? q = s.pmm.space.frame? q) ?_
      (fun j w w' _ hj hw hstep => (map_page_frame hstep hout (hother j (by omega))).trans hw) hbefore
    rfl
  have h2 : v.pmm.space.frame? q = t.pmm.space.frame? q := by
    -- nothing is mapped in this turn
    simp only [map_page, hfail] at hturn
    cases hturn
    exact Pmm.pmalloc_frame hfail hout
  have h3 : s'.pmm.space.frame? q = v.pmm.space.frame? q := by
    refine forUp_keeps (P := fun w : State AddrSpace => w.pmm.space.frame? q = v.pmm.space.frame? q) ?_
      (fun j w w' hj _ hw hstep => (map_page_frame hstep hout (hother j (by omega))).trans hw) hafter
    rfl
  exact h3.trans (h2.trans h1)

/-- What a request comes to that cannot be supplied. The break is moved in each case; behind the limit it
refuses the next requests as well, and elsewhere the old break is answered. -/
inductive Failed (s : State AddrSpace) (n : Nat) : Nat → State AddrSpace → Prop
  | limit (hge : brk_hardLimit ≤ break_after s n) (hlt : break_after s n < 2 ^ 32)
      (hnext : ∀ m, break_after s n + 4 * BLOCK_SIZE * m < 2 ^ 32 → ∃ s'',
        liballoc_alloc AddrSpace.paging { s with brk_limit := break_after s n } m = .ok (0xFFFFFFFF, s'')) :
      Failed s n 0xFFFFFFFF { s with brk_limit := break_after s n }
  | wrapped {s' : State AddrSpace} (hge : 2 ^ 32 ≤ break_after s n)
      (hbrk : s'.brk_limit = break_after s n % 2 ^ 32)
      (hsame : brk_hardLimit ≤ s'.brk_limit ∨ s'.brk_limit ≤ s.brk_limit →
        ∀ q, s'.pmm.space.frame? q = s.pmm.space.frame? q) :
      Failed s n (if brk_hardLimit ≤ s'.brk_limit then 0xFFFFFFFF else s.brk_limit) s'
  | short {s' : State AddrSpace} (i : Nat) (hno : NoFrame s n i) (hbrk : s'.brk_limit = break_after s n)
      (hpage : Pmm.Outside (s.brk_limit / 4096 + 4 * i) →
        s'.pmm.space.frame? (s.brk_limit / 4096 + 4 * i) = s.pmm.space.frame? (s.brk_limit / 4096 + 4 * i)) :
      Failed s n s.brk_limit s'

theorem Failed.answer_ne {a : Nat} {s' : State AddrSpace} (h : Failed s n a s') (hs : Reached s) : a ≠ 0 := by
  have hstride := hs.stride
  cases h with
  | limit => exact nofun
  | wrapped => split <;> omega
  | short => omega

theorem Grown.failed {s' : State AddrSpace} {a : Nat} (h : Grown AddrSpace.paging s n a s') (hs : Reached s)
    (hm : s.has_mapped = true) (hc : CannotSupply s n) : Failed s n a s' := by
  have hmod := break_after_mod s n
  have hmax : brk_hardLimit < 2 ^ 32 := by decide
  rcases Nat.lt_or_ge (break_after s n) (2 ^ 32) with hlt | hwraps
  · rw [Nat.mod_eq_of_lt hlt] at hmod
    cases h with
    | limit ht hb =>
      rw [ensure_mapped_of_mapped hm] at ht
      cases ht
      rw [hmod] at hb ⊢
      exact .limit hb hlt fun m hm' => alloc_beyond_limit hm hb hm'
    | pages ht hb hloop =>
      rw [ensure_mapped_of_mapped hm] at ht
      cases ht
      rw [hmod] at hb hloop
      cases hc with
      | limit hge => omega
      | wraps hge => omega
      | frames i hno =>
        have hturns : strides s.brk_limit (break_after s n) = n := by
          unfold strides break_after BLOCK_SIZE
          omega
        rw [hturns] at hloop
        have hbrk : s'.brk_limit = break_after s n :=
          forUp_keeps (P := fun t : State AddrSpace => t.brk_limit = break_after s n) rfl
            (fun _ _ _ _ _ ht hstep => (map_page_brk hstep).trans ht) hloop
        have hstride := hs.stride
        exact .short i hno hbrk (loop_without_frame hno hloop (by omega) rfl)
  · have hbrk := h.brk.trans hmod
    cases h with
    | limit ht hb =>
      rw [ensure_mapped_of_mapped hm] at ht
      cases ht
      have hfailed := Failed.wrapped hwraps hbrk fun _ _ => rfl
      rwa [if_pos hb] at hfailed
    | pages ht hb hloop =>
      rw [ensure_mapped_of_mapped hm] at ht
      cases ht
      rw [← hmod] at hbrk
      have hfailed : Failed s n (if brk_hardLimit ≤ s'.brk_limit then 0xFFFFFFFF else s.brk_limit) s' := by
        refine .wrapped hwraps (hbrk.trans hmod) fun hor q => ?_
        -- the loop goes up from the old break, so it has no turn
        have hturns : strides s.brk_limit (ptr_add s.brk_limit (blocks_size n)) = 0 := by
          unfold strides BLOCK_SIZE
          omega
        rw [hturns] at hloop
        cases hloop
        rfl
      rwa [if_neg (by omega)] at hfailed

/-- **Allocations that fail.** A request that cannot be supplied is never answered with `NULL` and the heap
as it was. -/
theorem alloc_failure_never (hs : Reached s) (hm : s.has_mapped = true) (hc : CannotSupply s n) :
    ¬ FailsCleanly s n ∧
      ∀ a s', liballoc_alloc AddrSpace.paging s n = .ok (a, s') → Failed s n a s' := by
  have hfailed (a : Nat) (s' : State AddrSpace) (h : liballoc_alloc AddrSpace.paging s n = .ok (a, s')) :
      Failed s n a s' := (liballoc_alloc_cases h).failed hs hm hc
  exact ⟨fun ⟨s', h, _⟩ => (hfailed 0 s' h).answer_ne hs rfl, hfailed⟩

end

/-- The heap of `boot` with its first page mapped. -/
def boot_mapped : State AddrSpace := { boot with has_mapped := true }

/-- One block left, and a frame stack without entries. -/
def last_frame : State AddrSpace where
  pmm := ⟨fun i => if i = 0 then 0xFFFFFFF7#32 else if i < 128 then 0xFFFFFFFF#32 else 0#32, 0, true,
    ⟨fun page => if page = Pmm.STACK32 / 4096 then 0x01000003 else 0, fun _ _ => 0xFFFFFFFF⟩⟩
  brk_limit := HEAP_START + BLOCK_SIZE
  has_mapped := true

theorem last_frame_noFrame : NoFrame last_frame 2 1 := by
  have hcalls : (do
      let t ← forUp 0 1 { last_frame with brk_limit := break_after last_frame 2 } fun i t =>
        map_page AddrSpace.paging t (last_frame.brk_limit + 4 * BLOCK_SIZE * i)
      let r ← Pmm.pmalloc AddrSpace.paging t.pmm
      pure r.1).toOption = some 0xFFFFFFFF := by decide +kernel
  obtain ⟨t, ht, hcalls⟩ := bind_toOption_eq_some.mp hcalls
  obtain ⟨⟨r, u⟩, hu, hcalls⟩ := bind_toOption_eq_some.mp hcalls
  cases Option.some.inj hcalls
  exact ⟨by decide, t, u, ht, hu⟩

/-- Each reason once: 64 MiB are 256 MiB for the code and pass the limit, 192 MiB wrap around, and of two
pages the second one gets no frame. -/
theorem alloc_failure_never_reasons : ¬ FailsCleanly boot_mapped 0x4000 ∧ ¬ FailsCleanly boot_mapped 0xC000 ∧
    ¬ FailsCleanly last_frame 2 := by
  have hmapped : Reached boot_mapped := .start rfl
  have hlast : Reached last_frame := .start rfl
  exact ⟨(alloc_failure_never hmapped rfl (.limit (by decide) (by decide))).1,
    (alloc_failure_never hmapped rfl (.wraps (by decide))).1,
    (alloc_failure_never hlast rfl (.frames 1 last_frame_noFrame)).1⟩

/-- 256 MiB do not fit, and are answered with the old break. The break is now below the heap, and so
is the page that the next request gets. -/
theorem failure_answers_break : CannotSupply boot_mapped 0x10000 ∧ ¬ FailsCleanly boot_mapped 0x10000 ∧
    ∃ s s', liballoc_alloc AddrSpace.paging boot_mapped 0x10000 = .ok (0xD0001000, s) ∧
      s.brk_limit = 0x10001000 ∧ liballoc_alloc AddrSpace.paging s 1 = .ok (0x10001000, s') := by
  have hcalls : (do
      let a ← liballoc_alloc AddrSpace.paging boot_mapped 0x10000
      let b ← liballoc_alloc AddrSpace.paging a.2 1
      pure (a.1, a.2.brk_limit, b.1)).toOption = some (0xD0001000, 0x10001000, 0x10001000) := by
    decide +kernel
  obtain ⟨⟨ra, a⟩, ha, hcalls⟩ := bind_toOption_eq_some.mp hcalls
  obtain ⟨⟨rb, b⟩, hb, hcalls⟩ := bind_toOption_eq_some.mp hcalls
  simp only [pure, Except.pure, Except.toOption, Option.some.injEq, Prod.mk.injEq] at hcalls
  obtain ⟨rfl, hbrk, rfl⟩ := hcalls
  refine ⟨.wraps (by decide), ?_, a, b, ha, hbrk, hb⟩
  rintro ⟨s', hnull, -⟩
  rw [ha] at hnull
  cases hnull

end Condor.Heap
