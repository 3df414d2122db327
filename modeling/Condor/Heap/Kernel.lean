import Condor.Heap.AllocHooks
import Condor.Heap.Users

/-!
# The heap of the kernel

`liballoc.c` over the hooks of `alloc_hooks.c`. The hooks are monitored: they stop before
a call that is not `CallOk`, and where the break is at its limit. Up to there they are what
the allocator relies on (`kernel_hooks_sound`): a call changes the memory only where it
changes the mapping, and it leaves the pages of the chunks that stay mapped as they were.

`psbrk` maps one page in four. The others get their frames by page faults when they are
touched, which is not modelled: a chunk is memory from the call on that gave it.
-/

namespace Condor.Heap

open Lib Liballoc

/-- Why a call of a hook is the last one. -/
inductive Halt where
  | stop (e : Stop)
  | limit
  | misplaced
  deriving DecidableEq

/-- What the hooks work on, with the chunks that they have given. -/
abbrev Monitor := State AddrSpace × List Pages

def chunk (p : Pages) : Chunk := ⟨p.addr.toNat, p.count.toNat⟩

instance (s : State AddrSpace) (live : List Chunk) : (c : Call) → Decidable (CallOk s live c)
  | .alloc pages => inferInstanceAs (Decidable (s.brk_limit + 4 * BLOCK_SIZE * pages < 2 ^ 32))
  | .free c => inferInstanceAs (Decidable (∀ d ∈ live.erase c, d.fin + 4 * BLOCK_SIZE * c.pages ≤ s.brk_limit))

/-- The memory after a call: a byte is another one only if its page has another frame. -/
def remapped (s s' : State AddrSpace) (junk m : Memory 32) : Memory 32 := fun x =>
  if s'.pmm.space.frame? (x.toNat / 4096) = s.pmm.space.frame? (x.toNat / 4096) then m x else junk x

/-- The hooks, which find `junk` in pages that they have mapped. -/
def kernel_hooks (junk : State AddrSpace → Memory 32) : Hooks Halt Monitor where
  liballoc_alloc n t :=
    if 0 < n.toNat ∧ CallOk t.1.1 (t.1.2.map chunk) (.alloc n.toNat) then
      match liballoc_alloc AddrSpace.paging t.1.1 n.toNat with
      | .error e => .error (.stop e)
      | .ok (a, s) =>
        if a = 0xFFFFFFFF then .error .limit
        else .ok (BitVec.ofNat 32 a, (s, ⟨BitVec.ofNat 32 a, n⟩ :: t.1.2), remapped t.1.1 s (junk s) t.2)
    else .error .misplaced
  liballoc_free addr n t :=
    if CallOk t.1.1 (t.1.2.map chunk) (.free ⟨addr.toNat, n.toNat⟩) then
      match liballoc_free AddrSpace.paging t.1.1 addr.toNat n.toNat with
      | .error e => .error (.stop e)
      | .ok (r, s) => .ok (BitVec.ofNat 32 r, (s, t.1.2.erase ⟨addr, n⟩), remapped t.1.1 s (junk s) t.2)
    else .error .misplaced

/-- The state of the hooks where they have given the pages of `live`. -/
structure Ready (t : Monitor) (live : List Pages) : Prop where
  inv : Inv t.1 (live.map chunk)
  given : t.2 = live
  pos : ∀ p ∈ live, 0 < p.count.toNat

/-! ## Frames -/

section
variable {s s' : State AddrSpace} {n a q : Nat} {live : List Pages} {p : Pages} {t : Monitor} {x : Word}
  {junk m : Memory 32}

/-- An allocation leaves the heap pages below the break mapped as they were. -/
theorem liballoc_alloc_frame (h : liballoc_alloc AddrSpace.paging s n = .ok (a, s'))
    (hn : s.brk_limit + 4 * BLOCK_SIZE * n < 2 ^ 32) (hlo : HEAP_START + BLOCK_SIZE ≤ 4096 * q)
    (hhi : 4096 * (q + 1) ≤ s.brk_limit) : s'.pmm.space.frame? q = s.pmm.space.frame? q := by
  unfold HEAP_START BLOCK_SIZE at hlo
  have hq : Pmm.Outside q := by
    unfold Pmm.Outside Pmm.STACK32 Pmm.STACK64 Pmm.PMM_BASE
    omega
  have hfirst : ∀ t, ensure_mapped AddrSpace.paging s = .ok t →
      t.pmm.space.frame? q = s.pmm.space.frame? q := fun t ht =>
    ensure_mapped_frame ht hq (by unfold HEAP_START; omega)
  cases liballoc_alloc_cases h with
  | @limit t ht => exact hfirst t ht
  | @pages t _ ht _ hloop =>
    rw [← hfirst t ht]
    refine forUp_keeps (P := fun v : State AddrSpace => v.pmm.space.frame? q = t.pmm.space.frame? q) ?_
      (fun i v v' _ _ hv hstep => (map_page_frame hstep hq ?_).trans hv) hloop
    · rfl
    · unfold BLOCK_SIZE
      omega

/-- A byte of a chunk lies on one of its pages. -/
theorem has_page (h : p.Has x) : (chunk p).HasPage (x.toNat / 4096) := ⟨x.toNat, rfl, h.1, h.2⟩

theorem remapped_of_frame (h : s'.pmm.space.frame? (x.toNat / 4096) = s.pmm.space.frame? (x.toNat / 4096)) :
    remapped s s' junk m x = m x := if_pos h

theorem chunk_inj {p p' : Pages} (h : chunk p = chunk p') : p = p' := by
  obtain ⟨a, n⟩ := p
  obtain ⟨a', n'⟩ := p'
  have haddr := congrArg Chunk.addr h
  have hpages := congrArg Chunk.pages h
  obtain rfl : a = a' := BitVec.eq_of_toNat_eq haddr
  obtain rfl : n = n' := BitVec.eq_of_toNat_eq hpages
  rfl

theorem map_chunk_erase (live : List Pages) (p : Pages) :
    (live.erase p).map chunk = (live.map chunk).erase (chunk p) :=
  List.map_erase (fun _ _ => chunk_inj) live

/-- No call changes a byte of a chunk whose pages it leaves as they are. -/
theorem remapped_kept (h : ∀ q, (chunk p).HasPage q → s'.pmm.space.frame? q = s.pmm.space.frame? q) (hx : p.Has x) :
    remapped s s' junk m x = m x := remapped_of_frame (h _ (has_page hx))

/-- The pages of a chunk lie below the break. -/
theorem Inv.page_below {d : Chunk} {live : List Chunk} (h : Inv s live) (hd : d ∈ live) (hq : d.HasPage q) :
    HEAP_START + BLOCK_SIZE ≤ 4096 * q ∧ 4096 * (q + 1) ≤ s.brk_limit := by
  have hlo := h.lo d hd
  have hal := h.aligned d hd
  have hhi := h.hi d hd
  obtain ⟨a, rfl, h1, h2⟩ := hq
  unfold Chunk.fin at h2 hhi
  unfold HEAP_START BLOCK_SIZE at *
  omega

/-- A call to allocate that has returned. -/
theorem hook_alloc_ok {n a : Word} {t' : Monitor} {m' : Memory 32} {junk : State AddrSpace → Memory 32}
    (h : (kernel_hooks junk).liballoc_alloc n (t, m) = .ok (a, t', m')) :
    ∃ b s', 0 < n.toNat ∧ CallOk t.1 (t.2.map chunk) (.alloc n.toNat) ∧
      liballoc_alloc AddrSpace.paging t.1 n.toNat = .ok (b, s') ∧ b ≠ 0xFFFFFFFF ∧ a = BitVec.ofNat 32 b ∧
      t' = (s', ⟨BitVec.ofNat 32 b, n⟩ :: t.2) ∧ m' = remapped t.1 s' (junk s') m := by
  simp only [kernel_hooks] at h
  split at h
  · rename_i hc
    cases hok : liballoc_alloc AddrSpace.paging t.1 n.toNat with
    | error e =>
      rw [hok] at h
      cases h
    | ok out =>
      rw [hok] at h
      dsimp only at h
      split at h
      · cases h
      · rename_i hne
        cases h
        exact ⟨out.1, out.2, hc.1, hc.2, rfl, hne, rfl, rfl, rfl⟩
  · cases h

/-- A call to free that has returned. -/
theorem hook_free_ok {addr n a : Word} {t' : Monitor} {m' : Memory 32} {junk : State AddrSpace → Memory 32}
    (h : (kernel_hooks junk).liballoc_free addr n (t, m) = .ok (a, t', m')) :
    ∃ r s', CallOk t.1 (t.2.map chunk) (.free ⟨addr.toNat, n.toNat⟩) ∧
      liballoc_free AddrSpace.paging t.1 addr.toNat n.toNat = .ok (r, s') ∧
      t' = (s', t.2.erase ⟨addr, n⟩) ∧ m' = remapped t.1 s' (junk s') m := by
  simp only [kernel_hooks] at h
  split at h
  · rename_i hc
    cases hok : liballoc_free AddrSpace.paging t.1 addr.toNat n.toNat with
    | error e =>
      rw [hok] at h
      cases h
    | ok out =>
      rw [hok] at h
      cases h
      exact ⟨out.1, out.2, hc, rfl, rfl, rfl⟩
  · cases h

/-- **What the allocator relies on**, of the hooks as they are. -/
theorem kernel_hooks_sound (junk : State AddrSpace → Memory 32) : (kernel_hooks junk).Sound Ready where
  pos t live h p hp hnull := by
    have hlo := h.inv.lo (chunk p) (List.mem_map_of_mem hp)
    have hzero : (chunk p).addr = 0 := congrArg BitVec.toNat hnull
    unfold HEAP_START at hlo
    omega
  high t live h p hp := by
    have hhi := h.inv.hi (chunk p) (List.mem_map_of_mem hp)
    have hlt := h.inv.lt
    have hmax : brk_hardLimit < 2 ^ 32 := by decide
    have hfin : p.fin = (chunk p).fin := rfl
    omega
  away t live h := by
    have hapart := h.inv.apart
    rw [List.pairwise_map] at hapart
    refine hapart.imp_of_mem fun {p q} hp hq hpq => ?_
    have hpos := h.pos p hp
    have hpos' := h.pos q hq
    by_contra hnot
    unfold Pages.Away Pages.fin at hnot
    -- the later start is a byte of both
    refine hpq (max p.addr.toNat q.addr.toNat) (Nat.le_max_left ..) ?_ (Nat.le_max_right ..) ?_
    · show _ < p.addr.toNat + 4096 * p.count.toNat
      omega
    · show _ < q.addr.toNat + 4096 * q.count.toNat
      omega
  alloc t live n m a t' m' h hcall := by
    obtain ⟨b, s', hpos, hc, hok, hne, rfl, rfl, rfl⟩ := hook_alloc_ok hcall
    have hgiven := h.given
    subst hgiven
    obtain ⟨hb, -, hlt⟩ := liballoc_alloc_brk hok hne hc
    have hinv := h.inv.alloc hc hok hne
    have hmax : brk_hardLimit < 2 ^ 32 := by decide
    have hblt := h.inv.lt
    have hnew : chunk ⟨BitVec.ofNat 32 b, n⟩ = ⟨b, n.toNat⟩ := by
      unfold chunk
      rw [toNat_ofNat_lt (by omega)]
    refine ⟨fun p hp x hx => remapped_kept (fun q hq => ?_) hx, .inr ⟨fun hnull => ?_, ?_, rfl, ?_⟩⟩
    · obtain ⟨hlo, hhi⟩ := h.inv.page_below (List.mem_map_of_mem hp) hq
      exact liballoc_alloc_frame hok hc hlo hhi
    · have hzero := congrArg BitVec.toNat hnull
      have hbrk := h.inv.brk
      rw [toNat_ofNat_lt (by omega)] at hzero
      change b = 0 at hzero
      unfold HEAP_START at hbrk
      omega
    · rw [List.map_cons, hnew]
      exact hinv
    · exact List.forall_mem_cons.mpr ⟨hpos, h.pos⟩
  free t live p m a t' m' h hp hcall := by
    obtain ⟨r, s', hc, hok, rfl, rfl⟩ := hook_free_ok hcall
    have hgiven := h.given
    subst hgiven
    have hmem : chunk p ∈ t.2.map chunk := List.mem_map_of_mem hp
    refine ⟨fun q hq x hx => remapped_kept (fun k hk => ?_) hx, ?_, rfl, fun q hq => h.pos q (List.mem_of_mem_erase hq)⟩
    · refine h.inv.free_frame hmem hc hok (d := chunk q) ?_ hk
      rw [← map_chunk_erase]
      exact List.mem_map_of_mem hq
    · rw [map_chunk_erase]
      exact h.inv.free hmem hc hok

end

end Condor.Heap
