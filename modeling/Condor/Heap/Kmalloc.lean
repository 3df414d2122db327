import Condor.Heap.Growing
import Mathlib.Data.Fintype.Card
import Mathlib.Data.Fintype.EquivFin

/-!
# `kmalloc`

The search goes through the majors from the best bet, or from the root, and starts over
at the root once if it began at the best bet. In each major it looks at the room in front
of the first minor, between the minors and behind the last one. `Malloced` is what it
ends with: a block in the first such gap that is long enough (`placed`), or, if no major
has one, a block in a new major (`grown`), or nothing, if the hook refuses the pages
(`refused`). `kmalloc_ends` says that every call ends so.
-/

namespace Condor.Heap.Liballoc

open Lib Lib.Prog

/-- Some gap of the region has `n` bytes. -/
def Region.HasRoom (r : Region) (n : Nat) : Prop :=
  ∃ xs ys, r.blocks = xs ++ ys ∧ Block.spans.after r.lo xs + n ≤ Block.spans.before r.fin ys

/-! ## What the code computes from the headers -/

section
variable {σ : Type} {s : State σ} {L pre post : List Region} {r : Region} {xs ys zs rest : List Block} {b z : Block}
  {n : Nat}

theorem Region.Ok.used_le (hr : r.Ok) : r.used ≤ 4096 * r.pages.toNat := by
  have hpages := hr.pages
  have hlo : r.lo ≤ r.fin := by
    unfold Region.lo Region.fin
    omega
  have hfit := hr.packed.total_le_room hlo
  unfold Region.used
  unfold Region.lo Region.fin at hfit
  omega

/-- A gap is not longer than all that is free. -/
theorem Region.Ok.not_hasRoom (hr : r.Ok) (h : 4096 * r.pages.toNat - r.used < n) : ¬ r.HasRoom n := by
  rintro ⟨xs, ys, hblocks, hroom⟩
  have hused := hr.used_le
  have hpacked := hr.packed
  rw [hblocks] at hpacked
  have hgap := hpacked.total_add_gap
  unfold Region.used at h hused
  rw [hblocks] at h hused
  unfold Region.lo Region.fin at hgap hroom
  omega

theorem Region.Ok.size_lt (hr : r.Ok) : r.addr.toNat + 4096 * r.pages.toNat ≤ 2 ^ 32 ∧ 0 < r.addr.toNat := by
  refine ⟨hr.high, Nat.pos_of_ne_zero fun hzero => hr.pos (BitVec.eq_of_toNat_eq hzero)⟩

theorem Region.Ok.toNat_size (hr : r.Ok) : (r.pages * l_pageSize).toNat = 4096 * r.pages.toNat := by
  have h := hr.size_lt
  rw [BitVec.toNat_mul, show l_pageSize.toNat = 4096 from rfl, Nat.mod_eq_of_lt (by omega), Nat.mul_comm]

/-- `maj->size - maj->usage`. -/
theorem Region.Ok.toNat_free (hr : r.Ok) :
    (r.pages * l_pageSize - BitVec.ofNat 32 r.used).toNat = 4096 * r.pages.toNat - r.used := by
  have h := hr.size_lt
  have hused := hr.used_le
  have hmod : r.used % 2 ^ 32 = r.used := Nat.mod_eq_of_lt (by omega)
  rw [BitVec.toNat_sub, hr.toNat_size, BitVec.toNat_ofNat, hmod]
  omega

/-- The room in front of the first minor. -/
theorem Block.In.toNat_front (h : b.In r) : (b.addr - r.addr - sizeof_major).toNat = b.addr.toNat - r.lo := by
  have h1 := h.lo
  have h2 := b.addr.isLt
  rw [BitVec.toNat_sub, BitVec.toNat_sub, toNat_sizeof_major]
  unfold Region.lo
  omega

/-- The room between two minors. -/
theorem Block.toNat_gap (hle : z.fin ≤ b.addr.toNat) :
    (b.addr - z.addr - sizeof_minor - z.size).toNat = b.addr.toNat - z.fin := by
  have h1 := z.size.isLt
  have h2 := b.addr.isLt
  unfold Block.fin at hle ⊢
  rw [BitVec.toNat_sub, BitVec.toNat_sub, BitVec.toNat_sub, toNat_sizeof_minor]
  omega

/-- The room behind the last minor. -/
theorem Block.In.toNat_back (hr : r.Ok) (h : z.In r) :
    (r.addr + r.pages * l_pageSize - z.addr - sizeof_minor - z.size).toNat = r.fin - z.fin := by
  have h1 := h.lo
  have h2 := h.hi
  have h3 := hr.size_lt
  have hsize := hr.toNat_size
  have h4 := z.size.isLt
  have h5 := z.addr.isLt
  unfold Region.fin at h2 ⊢
  unfold Block.fin
  rw [BitVec.toNat_sub, BitVec.toNat_sub, BitVec.toNat_sub, BitVec.toNat_add, hsize, toNat_sizeof_minor]
  omega

/-- Where a minor ends. -/
theorem Block.toNat_end (h : z.fin < 2 ^ 32) : (z.addr + sizeof_minor + z.size).toNat = z.fin := by
  unfold Block.fin at h ⊢
  rw [BitVec.toNat_add, BitVec.toNat_add, toNat_sizeof_minor]
  omega

end

/-- A request with its padded size. -/
structure Request (req size : Word) : Prop where
  padded : size.toNat = req.toNat + 32
  small : size.toNat + 48 < 2 ^ 32

theorem Request.toNat_need {req size : Word} (h : Request req size) :
    (size + sizeof_minor).toNat = size.toNat + 24 := by
  have := h.small
  rw [BitVec.toNat_add, toNat_sizeof_minor, Nat.mod_eq_of_lt (by omega)]

/-! ## The search in a major -/

section
variable {ε σ : Type} {H : Hooks ε σ} {I : σ → List Pages → Prop} {s s' : State σ} {L pre post : List Region}
  {r : Region} {xs ys zs rest : List Block} {b z w : Block} {req size : Word} {fuel : Nat} {m' : Memory 32}

/-- What the search among the minors ends with. -/
inductive Searched (r : Region) (req size : Word) (seen : Nat) (s : State σ) : Option Word → State σ → Prop
  | placed (xs : List Block) (b : Block) (ys : List Block) (m' : Memory 32) (hgap : Gap r xs b ys)
      (hreq : b.req = req) (hsize : b.size = size) (hins : Inserted s.memory m' r xs b ys) :
      Searched r req size seen s (some b.payload)
        { s with memory := m', l_inuse := s.l_inuse + size.setWidth 64 }
  | full (hroom : ∀ xs ys, r.blocks = xs ++ ys → seen < xs.length →
      ¬ Block.spans.after r.lo xs + (size.toNat + 24) ≤ Block.spans.before r.fin ys) :
      Searched r req size seen s none s

/-- The block that a gap is long enough for. -/
theorem Gap.of_room (hreq : Request req size) (hblocks : r.blocks = xs ++ ys) {new : Word}
    (hnew : new.toNat = Block.spans.after r.lo xs)
    (hroom : Block.spans.after r.lo xs + (size.toNat + 24) ≤ Block.spans.before r.fin ys) :
    Gap r xs ⟨new, size, req⟩ ys where
  blocks := hblocks
  start := hnew
  fits := by
    show new.toNat + 24 + size.toNat ≤ _
    omega
  padded := Nat.le_of_eq hreq.padded.symm

/-- A turn at the last minor. -/
theorem minor_turn_last (hreq : Request req size) (h : Rep s (pre ++ r :: post)) (hblocks : r.blocks = zs ++ [z]) :
    Ends IsHook (minor_turn r.addr req size z.addr : Code ε σ _) s fun out s' =>
      (∃ p, out = .inr (some p) ∧ Searched r req size zs.length s (some p) s') ∨
      out = .inl NULL ∧ s' = s ∧ ¬ z.fin + (size.toNat + 24) ≤ r.fin := by
  have hr := h.ok.regions r (by simp)
  have hz := hr.block (b := z) (by simp [hblocks])
  have hneed := hreq.toNat_need
  have hnode := h.minor_eq (b := z) (by simp) hblocks
  have hmajor := h.major_eq
  rw [minor_turn, if_neg hz.addr_ne]
  refine .next rfl (.next rfl ?_)
  rw [hnode, hmajor]
  dsimp only
  rw [Dlist.start_nil, if_pos rfl]
  have hiff : size + sizeof_minor ≤ r.addr + r.pages * l_pageSize - z.addr - sizeof_minor - z.size ↔
      z.fin + (size.toNat + 24) ≤ r.fin := by
    have hfin : z.fin ≤ r.fin := hz.hi
    rw [BitVec.le_def, hneed, hz.toNat_back hr]
    omega
  by_cases hroom : z.fin + (size.toNat + 24) ≤ r.fin
  · rw [if_pos (hiff.mpr hroom)]
    have hhigh := hr.high
    have hend := Block.toNat_end (z := z) (by omega)
    have hgap : Gap r (zs ++ [z]) ⟨z.addr + sizeof_minor + z.size, size, req⟩ [] :=
      .of_room hreq (by rw [hblocks, List.append_nil]) (by rw [Spans.after_concat]; exact hend)
        (by rw [Spans.after_concat]; exact hroom)
    obtain ⟨m', hrun, hins⟩ := place_last_run (ε := ε) (s := s) hr hgap (by rw [hmajor])
    exact .next hrun (.pure (.inl ⟨_, rfl, .placed _ _ _ m' hgap rfl rfl hins⟩))
  · rw [if_neg (mt hiff.mp hroom)]
    exact .pure (.inr ⟨rfl, rfl, hroom⟩)

/-- A turn at a minor with another one behind it. -/
theorem minor_turn_between (hreq : Request req size) (h : Rep s (pre ++ r :: post))
    (hblocks : r.blocks = zs ++ z :: w :: rest) :
    Ends IsHook (minor_turn r.addr req size z.addr : Code ε σ _) s fun out s' =>
      (∃ p, out = .inr (some p) ∧ Searched r req size zs.length s (some p) s') ∨
      out = .inl w.addr ∧ s' = s ∧ ¬ z.fin + (size.toNat + 24) ≤ w.addr.toNat := by
  have hr := h.ok.regions r (by simp)
  have hz := hr.block (b := z) (by simp [hblocks])
  have hw := hr.block (b := w) (by simp [hblocks])
  have hneed := hreq.toNat_need
  have hnode := h.minor_eq (b := z) (by simp) hblocks
  have hmajor := h.major_eq
  have hpacked := hr.packed
  rw [hblocks] at hpacked
  have hle : z.fin ≤ w.addr.toNat := hpacked.le_of_back (by simp)
  rw [minor_turn, if_neg hz.addr_ne]
  refine .next rfl (.next rfl ?_)
  rw [hnode, hmajor]
  dsimp only
  rw [Dlist.start_cons, Block.dlist_addr, if_neg hw.addr_ne]
  have hiff : size + sizeof_minor ≤ w.addr - z.addr - sizeof_minor - z.size ↔
      z.fin + (size.toNat + 24) ≤ w.addr.toNat := by
    rw [BitVec.le_def, hneed, Block.toNat_gap hle]
    omega
  by_cases hroom : z.fin + (size.toNat + 24) ≤ w.addr.toNat
  · rw [if_pos (hiff.mpr hroom)]
    have hhigh := w.addr.isLt
    have hend := Block.toNat_end (z := z) (by omega)
    have hsplit : r.blocks = (zs ++ [z]) ++ w :: rest := by rw [hblocks, List.append_assoc]; rfl
    have hgap : Gap r (zs ++ [z]) ⟨z.addr + sizeof_minor + z.size, size, req⟩ (w :: rest) :=
      .of_room hreq hsplit (by rw [Spans.after_concat]; exact hend) (by rw [Spans.after_concat]; exact hroom)
    obtain ⟨m', hrun, hins⟩ := place_between_run (ε := ε) (s := s) hr hgap (by rw [hmajor])
    exact .next hrun (.pure (.inl ⟨_, rfl, .placed _ _ _ m' hgap rfl rfl hins⟩))
  · rw [if_neg (mt hiff.mp hroom)]
    exact .pure (.inr ⟨rfl, rfl, hroom⟩)

/-- The loop from a minor on. -/
theorem minor_loop_ends (hreq : Request req size) (h : Rep s (pre ++ r :: post))
    (hblocks : r.blocks = zs ++ z :: rest) (hfuel : rest.length + 1 < fuel) :
    Ends IsHook (iterate (minor_turn r.addr req size) .pending fuel z.addr : Code ε σ _) s
      (Searched r req size zs.length s) := by
  induction rest generalizing zs z fuel with
  | nil =>
    obtain ⟨fuel, rfl⟩ : ∃ k, fuel = k + 1 + 1 := ⟨fuel - 2, by simp at hfuel; omega⟩
    refine .turn (minor_turn_last hreq h hblocks) (fun a' s' hout => ?_) fun p s' hout => ?_
    · rcases hout with ⟨p, hp, -⟩ | ⟨ha, hs, hroom⟩
      · cases hp
      cases ha
      subst hs
      refine .of_ok (iterate_last rfl) (.full fun xs ys hxy hseen => ?_)
      -- only the gap behind the last minor is left
      have hlen := congrArg List.length hxy
      rw [hblocks, List.length_append, List.length_append, List.length_singleton] at hlen
      obtain rfl : ys = [] := List.eq_nil_of_length_eq_zero (by omega)
      rw [List.append_nil, hblocks] at hxy
      subst hxy
      rw [Spans.after_concat]
      exact hroom
    · rcases hout with ⟨p', hp, hfound⟩ | ⟨ha, -⟩
      · cases hp
        exact hfound
      · cases ha
  | cons w rest ih =>
    obtain ⟨fuel, rfl⟩ : ∃ k, fuel = k + 1 := ⟨fuel - 1, by simp at hfuel; omega⟩
    have hsplit : r.blocks = (zs ++ [z]) ++ w :: rest := by rw [hblocks, List.append_assoc]; rfl
    refine .turn (minor_turn_between hreq h hblocks) (fun a' s' hout => ?_) fun p s' hout => ?_
    · rcases hout with ⟨p, hp, -⟩ | ⟨ha, hs, hroom⟩
      · cases hp
      cases ha
      subst hs
      refine (ih hsplit (by simp at hfuel ⊢; omega)).imp fun p s' hfound => ?_
      cases hfound with
      | placed xs b ys m' hgap hreq hsize hins => exact .placed xs b ys m' hgap hreq hsize hins
      | full hnone =>
        refine .full fun xs ys hxy hseen => ?_
        by_cases hlast : xs.length = zs.length + 1
        · have happ := hxy.symm.trans hsplit
          obtain ⟨rfl, rfl⟩ := List.append_inj happ (by simp [hlast])
          rw [Spans.after_concat]
          exact hroom
        · exact hnone xs ys hxy (by simp; omega)
    · rcases hout with ⟨p', hp, hfound⟩ | ⟨ha, -⟩
      · cases hp
        exact hfound
      · cases ha

/-- A block has been placed in the region `r`. -/
inductive Placed (I : σ → List Pages → Prop) (req size : Word) (pre : List Region) (r : Region)
    (post : List Region) (s : State σ) : Word → State σ → Prop
  | intro (xs : List Block) (b : Block) (ys : List Block) (s' : State σ) (hgap : Gap r xs b ys)
      (hreq : b.req = req) (hsize : b.size = size) (hgood : Good I s' (pre ++ r.holding (xs ++ b :: ys) :: post))
      (hkept : PayloadsKept (blocks (pre ++ r :: post)) s.memory s'.memory) (hpages : s'.pages = s.pages) :
      Placed I req size pre r post s b.payload s'

theorem Inserted.payloads (hins : Inserted s.memory m' r xs b ys) (h : Rep s (pre ++ r :: post))
    (hgap : Gap r xs b ys) : PayloadsKept (blocks (pre ++ r :: post)) s.memory m' := by
  intro c hc x hx
  obtain ⟨q, hq, hcq⟩ := mem_blocks.mp hc
  refine hins.frame x fun ht => ?_
  have hL := h.ok.holding (hgap.ok (h.ok.regions r (by simp)))
  simp only [List.mem_append, List.mem_cons] at hq
  rcases hq with hq | rfl | hq
  · exact not_own_of_payload hL (by simp [hq]) hcq hx ht.own
  · refine not_own_of_payload hL (r := q.holding (xs ++ b :: ys)) (by simp) ?_ hx ht.own
    rw [hgap.blocks] at hcq
    simp only [Region.holding, List.mem_append, List.mem_cons] at hcq ⊢
    tauto
  · exact not_own_of_payload hL (by simp [hq]) hcq hx ht.own

theorem Inserted.placed (hins : Inserted s.memory m' r xs b ys) (h : Good I s (pre ++ r :: post))
    (hgap : Gap r xs b ys) (hreq : b.req = req) (hsize : b.size = size) :
    Placed I req size pre r post s b.payload { s with memory := m', l_inuse := s.l_inuse + size.setWidth 64 } := by
  subst hsize
  refine .intro xs b ys _ hgap hreq rfl ⟨hins.rep h.rep hgap, ?_⟩ (hins.payloads h.rep hgap) rfl
  obtain ⟨live, hI, hperm⟩ := h.given
  refine ⟨live, hI, ?_⟩
  rwa [List.map_append, List.map_cons] at hperm ⊢

/-- A region has fewer blocks than there are addresses. -/
theorem Region.Ok.length_lt (hr : r.Ok) : r.blocks.length + 1 < 2 ^ 32 := by
  have htotal : ∀ l : List Block, 24 * l.length ≤ Block.spans.total l := by
    intro l
    induction l with
    | nil => exact Nat.le_refl _
    | cons b l ih =>
      have hspan : Block.spans.fin b - Block.spans.start b = 24 + b.size.toNat := by
        show b.addr.toNat + 24 + b.size.toNat - b.addr.toNat = _
        omega
      rw [List.length_cons, Spans.total, hspan]
      omega
  have h1 := htotal r.blocks
  have h2 := hr.used_le
  have h3 := hr.size_lt
  unfold Region.used at h2
  omega

/-- A block is placed in the first gap that is long enough; if there is none, the search goes on. -/
theorem in_major_ends {w : Walk} {Q : Walk ⊕ Word → State σ → Prop} (hreq : Request req size)
    (h : Good I s (pre ++ r :: post)) (hfree : size.toNat + 24 ≤ 4096 * r.pages.toNat - r.used)
    (hw : w.maj = r.addr) (hplaced : ∀ p s', Placed I req size pre r post s p s' → Q (.inr p) s')
    (hnext : ¬ r.HasRoom (size.toNat + 24) → Ends IsHook (next_major H size w) s Q) :
    Ends IsHook (in_major H req size w) s Q := by
  have hr := h.rep.ok.regions r (by simp)
  have hmajor := h.rep.major_eq
  have hneed := hreq.toNat_need
  have hlimit := hr.size_lt
  have hlo : (r.addr + sizeof_major).toNat = r.lo := by
    have := hr.header_le
    change r.addr.toNat + 24 ≤ 2 ^ 32 at this
    rw [BitVec.toNat_add, toNat_sizeof_major]
    unfold Region.lo
    omega
  rw [in_major, hw]
  refine .next rfl ?_
  rw [hmajor]
  dsimp only
  cases hblocks : r.blocks with
  | nil =>
    -- CASE 2
    have hfirst : r.first = NULL := by rw [Region.first, hblocks, Dlist.start_nil]
    rw [if_pos hfirst]
    have hroom : Block.spans.after r.lo [] + (size.toNat + 24) ≤ Block.spans.before r.fin [] := by
      unfold Region.used at hfree
      rw [hblocks] at hfree
      simp only [Spans.after, Spans.before, Spans.total] at hfree ⊢
      unfold Region.lo Region.fin
      omega
    have hgap := Gap.of_room hreq hblocks hlo hroom
    obtain ⟨m', hrun, hins⟩ := place_only_run (ε := ε) (s := s) hr hgap
    exact .next hrun (.pure (hplaced _ _ (hins.placed h hgap rfl rfl)))
  | cons b rest =>
    have hb := hr.block (b := b) (by simp [hblocks])
    have hfirst : r.first = b.addr := by rw [Region.first, hblocks, Dlist.start_cons, Block.dlist_addr]
    have hlob : r.lo ≤ b.addr.toNat := hb.lo
    rw [hfirst, if_neg hb.addr_ne]
    have hiff : size + sizeof_minor ≤ b.addr - r.addr - sizeof_major ↔
        Block.spans.after r.lo [] + (size.toNat + 24) ≤ Block.spans.before r.fin (b :: rest) := by
      show _ ↔ r.lo + (size.toNat + 24) ≤ b.addr.toNat
      rw [BitVec.le_def, hneed, hb.toNat_front]
      omega
    by_cases hroom : Block.spans.after r.lo [] + (size.toNat + 24) ≤ Block.spans.before r.fin (b :: rest)
    · -- CASE 3
      rw [if_pos (hiff.mpr hroom)]
      have hgap : Gap r [] ⟨r.addr + sizeof_major, size, req⟩ (b :: rest) := .of_room hreq hblocks hlo hroom
      obtain ⟨m', hrun, hins⟩ := place_first_run (ε := ε) (s := s) hr hgap
      exact .next hrun (.pure (hplaced _ _ (hins.placed h hgap rfl rfl)))
    · -- CASE 4
      rw [if_neg (mt hiff.mp hroom)]
      have hlen := hr.length_lt
      rw [hblocks, List.length_cons] at hlen
      have hsplit : r.blocks = [] ++ b :: rest := hblocks
      refine (minor_loop_ends hreq h.rep hsplit (by omega : rest.length + 1 < 2 ^ 32)).bind fun out s' hout => ?_
      cases hout with
      | placed xs b ys m' hgap hreq hsize hins =>
        exact .pure (hplaced _ _ (hins.placed h hgap hreq hsize))
      | full hnone =>
        refine hnext fun hhas => ?_
        obtain ⟨xs, ys, hxy, hgap⟩ := hhas
        cases xs with
        | nil =>
          obtain rfl : ys = b :: rest := (hxy.symm.trans hsplit)
          exact hroom hgap
        | cons x xs => exact hnone (x :: xs) ys hxy (by simp) hgap

end

/-! ## The search among the majors -/

section
variable {ε σ : Type} {H : Hooks ε σ} {I : σ → List Pages → Prop} {s s' s₁ : State σ} {L pre post : List Region}
  {r : Region} {req size : Word} {w : Walk} {fuel : Nat} {p : Word}

theorem Placed.of_same (h : Placed I req size pre r post s₁ p s') (hmem : s₁.memory = s.memory)
    (hpages : s₁.pages = s.pages) : Placed I req size pre r post s p s' := by
  cases h with
  | intro xs b ys s' hgap hreq hsize hgood hkept hsame =>
    exact .intro xs b ys s' hgap hreq hsize hgood (hmem ▸ hkept) (hsame.trans hpages)

/-- What a turn at the region `r` ends with. -/
inductive Turned (I : σ → List Pages → Prop) (req size : Word) (pre : List Region) (r : Region)
    (post : List Region) (w : Walk) (s : State σ) : Walk ⊕ Word → State σ → Prop
  | placed (p : Word) (s' : State σ) (h : Placed I req size pre r post s p s') :
      Turned I req size pre r post w s (.inr p) s'
  | next (q : Region) (rest : List Region) (w' : Walk) (s' : State σ) (hpost : post = q :: rest)
      (hmaj : w'.maj = q.addr) (hbet : w'.startedBet = w.startedBet) (hfull : ¬ r.HasRoom (size.toNat + 24))
      (hgood : Good I s' (pre ++ r :: post)) (hmem : s'.memory = s.memory) (hpages : s'.pages = s.pages) :
      Turned I req size pre r post w s (.inl w') s'
  | restart (w' : Walk) (s' : State σ) (hpost : post = []) (hfull : ¬ r.HasRoom (size.toNat + 24))
      (hbet : w.startedBet = true) (hmaj : w'.maj = Region.dlist.start (pre ++ r :: post) NULL)
      (hbet' : w'.startedBet = false) (hgood : Good I s' (pre ++ r :: post)) (hmem : s'.memory = s.memory) (hpages : s'.pages = s.pages) :
      Turned I req size pre r post w s (.inl w') s'
  | refused (s' : State σ) (hpost : post = []) (hfull : ¬ r.HasRoom (size.toNat + 24))
      (hbet : w.startedBet = false) (hgood : Good I s' (pre ++ r :: post))
      (hkept : PayloadsKept (blocks (pre ++ r :: post)) s.memory s'.memory) :
      Turned I req size pre r post w s (.inr NULL) s'
  | grown (a : Word) (s₁ : State σ) (p : Word) (s' : State σ) (hpost : post = [])
      (hfull : ¬ r.HasRoom (size.toNat + 24)) (hbet : w.startedBet = false)
      (hkept : PayloadsKept (blocks (pre ++ r :: post)) s.memory s₁.memory)
      (hplaced : Placed I req size (pre ++ r :: post) (Region.bare a (page_count size)) [] s₁ p s') :
      Turned I req size pre r post w s (.inr p) s'
  | appended (a : Word) (w' : Walk) (s' : State σ) (hpost : post = [])
      (hfull : ¬ r.HasRoom (size.toNat + 24)) (hbet : w.startedBet = false) (hmaj : w'.maj = a)
      (hgood : Good I s' (pre ++ r :: post ++ [Region.bare a (page_count size)]))
      (hkept : PayloadsKept (blocks (pre ++ r :: post)) s.memory s'.memory) :
      Turned I req size pre r post w s (.inl w') s'

theorem Turned.of_same {w₁ : Walk} {out : Walk ⊕ Word} (h : Turned I req size pre r post w₁ s₁ out s')
    (hbet : w₁.startedBet = w.startedBet) (hmem : s₁.memory = s.memory) (hpages : s₁.pages = s.pages) :
    Turned I req size pre r post w s out s' := by
  cases h with
  | placed p s' h => exact .placed p s' (h.of_same hmem hpages)
  | next q rest w' s' hpost hmaj hbet' hfull hgood hmem' hpages' =>
    exact .next q rest w' s' hpost hmaj (hbet'.trans hbet) hfull hgood (hmem'.trans hmem) (hpages'.trans hpages)
  | restart w' s' hpost hfull hbet' hmaj hbet'' hgood hmem' hpages' =>
    exact .restart w' s' hpost hfull (hbet ▸ hbet') hmaj hbet'' hgood (hmem'.trans hmem) (hpages'.trans hpages)
  | refused s' hpost hfull hbet' hgood hkept => exact .refused s' hpost hfull (hbet ▸ hbet') hgood (hmem ▸ hkept)
  | grown a s₂ p s' hpost hfull hbet' hkept hplaced =>
    exact .grown a s₂ p s' hpost hfull (hbet ▸ hbet') (hmem ▸ hkept) hplaced
  | appended a w' s' hpost hfull hbet' hmaj hgood hkept =>
    exact .appended a w' s' hpost hfull (hbet ▸ hbet') hmaj hgood (hmem ▸ hkept)

/-- A new region has room for the request. -/
theorem bare_hasRoom (hreq : Request req size) {a : Word} :
    (Region.bare a (page_count size)).HasRoom (size.toNat + 24) ∧
      size.toNat + 24 ≤ 4096 * (Region.bare a (page_count size)).pages.toNat -
        (Region.bare a (page_count size)).used := by
  have hcount := page_count_le hreq.small
  constructor
  · refine ⟨[], [], rfl, ?_⟩
    show a.toNat + 24 + (size.toNat + 24) ≤ a.toNat + 4096 * (page_count size).toNat
    omega
  · show size.toNat + 24 ≤ 4096 * (page_count size).toNat - (24 + 0)
    omega

theorem restart_ends (h : Good I s (pre ++ [r])) (hfull : ¬ r.HasRoom (size.toNat + 24))
    (hbet : w.startedBet = true) :
    Ends IsHook (restart w : Code ε σ _) s (Turned I req size pre r [] w s) :=
  .of_ok rfl (.restart _ s rfl hfull hbet h.rep.root rfl h rfl rfl)

/-- CASE 5. -/
theorem next_major_ends (hH : H.Sound I) (hreq : Request req size) (h : Good I s (pre ++ r :: post))
    (hw : w.maj = r.addr) (hfull : ¬ r.HasRoom (size.toNat + 24)) :
    Ends IsHook (next_major H size w) s (Turned I req size pre r post w s) := by
  rw [next_major, hw]
  refine .next rfl ?_
  rw [h.rep.major_eq]
  dsimp only
  cases post with
  | cons q rest =>
    have hq := h.rep.ok.regions q (by simp)
    rw [Dlist.start_cons, Region.dlist_addr, if_neg hq.pos]
    exact .pure (.next q rest _ s rfl rfl rfl hfull h rfl rfl)
  | nil =>
    rw [Dlist.start_nil, if_pos rfl]
    cases hbet : w.startedBet with
    | true =>
      rw [if_pos rfl]
      exact restart_ends h hfull hbet
    | false =>
      rw [if_neg (by simp)]
      refine (append_ends hH h hreq.small).bind fun a s' hs' => ?_
      cases hs' with
      | refused s' hgood hkept =>
        rw [if_pos rfl]
        exact .pure (.refused s' rfl hfull hbet hgood hkept)
      | page a s' hne hgood hkept =>
        rw [if_neg hne]
        exact .pure (.appended a _ s' rfl hfull hbet rfl hgood hkept)

/-- CASE 1. -/
theorem hop_ends (hH : H.Sound I) (hreq : Request req size) (h : Good I s (pre ++ r :: post))
    (hw : w.maj = r.addr) (hfull : ¬ r.HasRoom (size.toNat + 24)) :
    Ends IsHook (hop H req size w) s (Turned I req size pre r post w s) := by
  rw [hop, hw]
  refine .next rfl ?_
  rw [h.rep.major_eq]
  dsimp only
  cases post with
  | cons q rest =>
    have hq := h.rep.ok.regions q (by simp)
    rw [Dlist.start_cons, Region.dlist_addr, if_pos hq.pos]
    exact .pure (.next q rest _ s rfl rfl rfl hfull h rfl rfl)
  | nil =>
    rw [Dlist.start_nil, if_neg (fun hne => hne rfl)]
    cases hbet : w.startedBet with
    | true =>
      rw [if_pos rfl]
      exact restart_ends h hfull hbet
    | false =>
      rw [if_neg (by simp)]
      refine (append_ends hH h hreq.small).bind fun a s' hs' => ?_
      cases hs' with
      | refused s' hgood hkept =>
        rw [if_pos rfl]
        exact .pure (.refused s' rfl hfull hbet hgood hkept)
      | page a s' hne hgood hkept =>
        rw [if_neg hne]
        obtain ⟨hroom, hfree⟩ := bare_hasRoom hreq (a := a)
        exact in_major_ends hreq hgood hfree rfl
          (fun p s'' hplaced => .grown a s' p s'' rfl hfull hbet hkept hplaced) fun hno => absurd hroom hno

/-- A turn of the loop over the majors. -/
theorem major_turn_ends (hH : H.Sound I) (hreq : Request req size) (h : Good I s (pre ++ r :: post))
    (hw : w.maj = r.addr) :
    Ends IsHook (major_turn H req size w) s (Turned I req size pre r post w s) := by
  have hr := h.rep.ok.regions r (by simp)
  have hmajor := h.rep.major_eq
  have hneed := hreq.toNat_need
  have hlt : r.pages * l_pageSize - BitVec.ofNat 32 r.used < size + sizeof_minor ↔
      4096 * r.pages.toNat - r.used < size.toNat + 24 := by
    rw [BitVec.lt_def, hr.toNat_free, hneed]
  rw [major_turn, hw, if_neg hr.pos]
  refine .next rfl ?_
  rw [hmajor]
  dsimp only
  -- whether the best bet is this one or stays as it is, the heap is the same
  have hremember : Ends IsHook (remember w (r.pages * l_pageSize - BitVec.ofNat 32 r.used) : Code ε σ _) s
      fun w' s' => w'.maj = w.maj ∧ w'.startedBet = w.startedBet ∧ Good I s' (pre ++ r :: post) ∧
        s'.memory = s.memory ∧ s'.pages = s.pages := by
    unfold remember
    split
    · refine .of_ok rfl ⟨rfl, rfl, ⟨?_, h.given⟩, rfl, rfl⟩
      exact ⟨h.rep.ok, h.rep.root, h.rep.majors, h.rep.minors, h.rep.marks, .inr ⟨r, by simp, hw⟩,
        h.rep.allocated, h.rep.inuse⟩
    · exact .pure ⟨rfl, rfl, h, rfl, rfl⟩
  refine hremember.bind fun w' s' hs' => ?_
  obtain ⟨hmaj, hbet, hgood, hmem, hpages⟩ := hs'
  have hw' := hmaj.trans hw
  by_cases hfree : 4096 * r.pages.toNat - r.used < size.toNat + 24
  · rw [if_pos (hlt.mpr hfree)]
    exact (hop_ends hH hreq hgood hw' (hr.not_hasRoom hfree)).imp fun _ _ hout => hout.of_same hbet hmem hpages
  · rw [if_neg (mt hlt.mp hfree)]
    refine in_major_ends hreq hgood (by omega) hw' (fun p s'' hp => .placed p s'' (hp.of_same hmem hpages)) fun hfull => ?_
    exact (next_major_ends hH hreq hgood hw' hfull).imp fun _ _ hout => hout.of_same hbet hmem hpages

/-! ## The whole search -/

/-- What `kmalloc` ends with. -/
inductive Malloced (I : σ → List Pages → Prop) (req size : Word) (L : List Region) (s : State σ) :
    Word → State σ → Prop
  | placed (pre : List Region) (r : Region) (post : List Region) (p : Word) (s' : State σ)
      (hL : L = pre ++ r :: post) (h : Placed I req size pre r post s p s') : Malloced I req size L s p s'
  | grown (a p : Word) (s₁ s' : State σ) (hfull : ∀ r ∈ L, ¬ r.HasRoom (size.toNat + 24))
      (hkept : PayloadsKept (blocks L) s.memory s₁.memory)
      (h : Placed I req size L (Region.bare a (page_count size)) [] s₁ p s') : Malloced I req size L s p s'
  | refused (s' : State σ) (hfull : ∀ r ∈ L, ¬ r.HasRoom (size.toNat + 24)) (hgood : Good I s' L)
      (hkept : PayloadsKept (blocks L) s.memory s'.memory) : Malloced I req size L s NULL s'

theorem Malloced.of_same (h : Malloced I req size L s₁ p s') (hmem : s₁.memory = s.memory)
    (hpages : s₁.pages = s.pages) : Malloced I req size L s p s' := by
  cases h with
  | placed pre r post p s' hL h => exact .placed pre r post p s' hL (h.of_same hmem hpages)
  | grown a p s₂ s' hfull hkept h => exact .grown a p s₂ s' hfull (hmem ▸ hkept) h
  | refused s' hfull hgood hkept => exact .refused s' hfull hgood (hmem ▸ hkept)

/-- The turn at a major that has just been appended. -/
theorem appended_ends (hH : H.Sound I) (hreq : Request req size) {a : Word}
    (h : Good I s₁ (L ++ [Region.bare a (page_count size)])) (hw : w.maj = a)
    (hfull : ∀ r ∈ L, ¬ r.HasRoom (size.toNat + 24)) (hkept : PayloadsKept (blocks L) s.memory s₁.memory) :
    Ends IsHook (iterate (major_turn H req size) .pending (fuel + 1) w) s₁ (Malloced I req size L s) := by
  have hroom := (bare_hasRoom hreq (a := a)).1
  refine .turn (major_turn_ends hH hreq h hw) (fun w' s' hout => ?_) fun p s' hout => ?_
  · cases hout with
    | next q rest _ _ hpost => cases hpost
    | restart _ _ _ hno => exact absurd hroom hno
    | appended _ _ _ _ hno => exact absurd hroom hno
  · cases hout with
    | placed p s' hp => exact .grown a p s₁ s' hfull hkept hp
    | refused _ _ hno => exact absurd hroom hno
    | grown _ _ _ _ _ hno => exact absurd hroom hno

/-- The loop once it does not start over any more: the majors before this one have no room. -/
theorem from_root_ends (hH : H.Sound I) (hreq : Request req size) (h : Good I s₁ (pre ++ r :: post))
    (hw : w.maj = r.addr) (hbet : w.startedBet = false) (hfull : ∀ q ∈ pre, ¬ q.HasRoom (size.toNat + 24))
    (hkept : PayloadsKept (blocks (pre ++ r :: post)) s.memory s₁.memory) (hpages : s₁.pages = s.pages)
    (hsame : s₁.memory = s.memory) (hfuel : post.length + 2 ≤ fuel) :
    Ends IsHook (iterate (major_turn H req size) .pending fuel w) s₁ (Malloced I req size (pre ++ r :: post) s) := by
  induction post generalizing pre r w fuel s₁ with
  | nil =>
    obtain ⟨fuel, rfl⟩ : ∃ k, fuel = k + 1 + 1 := ⟨fuel - 2, by simp at hfuel; omega⟩
    have hall : ¬ r.HasRoom (size.toNat + 24) → ∀ q ∈ pre ++ [r], ¬ q.HasRoom (size.toNat + 24) := by
      intro hno q hq
      rcases List.mem_append.mp hq with hq | hq
      · exact hfull q hq
      · rwa [List.mem_singleton.mp hq]
    refine .turn (major_turn_ends hH hreq h hw) (fun w' s' hout => ?_) fun p s' hout => ?_
    · cases hout with
      | next q rest _ _ hpost => cases hpost
      | restart _ _ _ _ htrue => simp [hbet] at htrue
      | appended a _ _ _ hno _ hmaj hgood hkept' =>
        exact appended_ends hH hreq hgood hmaj (hall hno) (hkept.trans hkept' fun _ hb => hb)
    · cases hout with
      | placed p s' hp => exact .placed pre r [] p s' rfl (hp.of_same hsame hpages)
      | refused s' _ hno _ hgood hkept' =>
        exact .refused s' (hall hno) hgood (hkept.trans hkept' fun _ hb => hb)
      | grown a s₂ p s' _ hno _ hkept' hp =>
        exact .grown a p s₂ s' (hall hno) (hkept.trans hkept' fun _ hb => hb) hp
  | cons q rest ih =>
    obtain ⟨fuel, rfl⟩ : ∃ k, fuel = k + 1 := ⟨fuel - 1, by simp at hfuel; omega⟩
    refine .turn (major_turn_ends hH hreq h hw) (fun w' s' hout => ?_) fun p s' hout => ?_
    · cases hout with
      | next q' rest' _ _ hpost hmaj hbet' hno hgood hmem hpages' =>
        cases hpost
        have hsplit : pre ++ r :: q :: rest = (pre ++ [r]) ++ q :: rest := by simp
        rw [hsplit] at hgood hkept ⊢
        refine ih hgood hmaj (hbet'.trans hbet) (fun p hp => ?_) (hmem ▸ hkept) (hpages'.trans hpages)
          (hmem.trans hsame) (by simp at hfuel; omega)
        rcases List.mem_append.mp hp with hp | hp
        · exact hfull p hp
        · rwa [List.mem_singleton.mp hp]
      | restart _ _ hpost => cases hpost
      | appended _ _ _ hpost => cases hpost
    · cases hout with
      | placed p s' hp => exact .placed pre r _ p s' rfl (hp.of_same hsame hpages)
      | refused _ hpost => cases hpost
      | grown _ _ _ _ hpost => cases hpost

/-- The first major of a heap that has one. -/
theorem from_start_ends (hH : H.Sound I) (hreq : Request req size) (h : Good I s₁ L) (hL : L ≠ [])
    (hw : w.maj = Region.dlist.start L NULL) (hbet : w.startedBet = false) (hpages : s₁.pages = s.pages)
    (hsame : s₁.memory = s.memory) (hfuel : L.length + 1 ≤ fuel) :
    Ends IsHook (iterate (major_turn H req size) .pending fuel w) s₁ (Malloced I req size L s) := by
  cases L with
  | nil => exact absurd rfl hL
  | cons r rest =>
    have hgood : Good I s₁ ([] ++ r :: rest) := h
    refine from_root_ends hH hreq hgood hw hbet (by simp) ?_ hpages hsame hfuel
    rw [hsame]
    exact .refl

/-- The loop from the best bet on. -/
theorem from_bet_ends (hH : H.Sound I) (hreq : Request req size) (h : Good I s₁ (pre ++ r :: post))
    (hw : w.maj = r.addr) (hbet : w.startedBet = true) (hpages : s₁.pages = s.pages)
    (hsame : s₁.memory = s.memory) (hfuel : post.length + 1 + ((pre ++ r :: post).length + 1) ≤ fuel) :
    Ends IsHook (iterate (major_turn H req size) .pending fuel w) s₁ (Malloced I req size (pre ++ r :: post) s) := by
  induction post generalizing pre r w fuel s₁ with
  | nil =>
    obtain ⟨fuel, rfl⟩ : ∃ k, fuel = k + 1 := ⟨fuel - 1, by simp at hfuel; omega⟩
    refine .turn (major_turn_ends hH hreq h hw) (fun w' s' hout => ?_) fun p s' hout => ?_
    · cases hout with
      | next q rest _ _ hpost => cases hpost
      | restart _ _ _ _ _ hmaj hbet' hgood hmem hpages' =>
        exact from_start_ends hH hreq hgood (by simp) hmaj hbet' (hpages'.trans hpages) (hmem.trans hsame)
          (by simp at hfuel ⊢; omega)
      | appended _ _ _ _ _ hfalse => simp [hbet] at hfalse
    · cases hout with
      | placed p s' hp => exact .placed pre r [] p s' rfl (hp.of_same hsame hpages)
      | refused _ _ _ hfalse => simp [hbet] at hfalse
      | grown _ _ _ _ _ _ hfalse => simp [hbet] at hfalse
  | cons q rest ih =>
    obtain ⟨fuel, rfl⟩ : ∃ k, fuel = k + 1 := ⟨fuel - 1, by simp at hfuel; omega⟩
    refine .turn (major_turn_ends hH hreq h hw) (fun w' s' hout => ?_) fun p s' hout => ?_
    · cases hout with
      | next q' rest' _ _ hpost hmaj hbet' hno hgood hmem hpages' =>
        cases hpost
        have hsplit : pre ++ r :: q :: rest = (pre ++ [r]) ++ q :: rest := by simp
        rw [hsplit] at hgood hfuel ⊢
        exact ih hgood hmaj (hbet'.trans hbet) (hpages'.trans hpages) (hmem.trans hsame)
          (by simp at hfuel ⊢; omega)
      | restart _ _ hpost => cases hpost
      | appended _ _ _ hpost => cases hpost
    · cases hout with
      | placed p s' hp => exact .placed pre r _ p s' rfl (hp.of_same hsame hpages)
      | refused _ hpost => cases hpost
      | grown _ _ _ _ hpost => cases hpost

/-- A heap has no more regions than the address space has pages. -/
theorem Ok.length_le (hL : Ok L) : L.length ≤ 2 ^ 20 := by
  have hpage : ∀ r : Region, r.addr.toNat / 4096 < 2 ^ 20 := fun r => by
    have := r.addr.isLt
    omega
  have hnodup : (L.map fun r => (⟨r.addr.toNat / 4096, hpage r⟩ : Fin (2 ^ 20))).Nodup := by
    refine List.pairwise_map.mpr (hL.away.imp_of_mem fun {r q} hr hq haway heq => ?_)
    have h1 := (hL.regions r hr).pages
    have h2 := (hL.regions q hq).pages
    have hpage := congrArg Fin.val heq
    dsimp only at hpage
    unfold Region.Away Region.fin at haway
    omega
  have hcard := hnodup.length_le_card
  rwa [List.length_map, Fintype.card_fin] at hcard

theorem search_ends (hH : H.Sound I) (hreq : Request req size) (h : Good I s L) (hL : L ≠ []) :
    Ends IsHook (search H req size) s (Malloced I req size L s) := by
  have hlen := h.rep.ok.length_le
  rw [search]
  refine .bind (Q := fun w s' => s' = s ∧ ((w.startedBet = false ∧ w.maj = s.l_memRoot) ∨
    (w.startedBet = true ∧ w.maj = s.l_bestBet ∧ s.l_bestBet ≠ NULL))) ?_ fun w s' hw => ?_
  · refine .next rfl ?_
    by_cases hnull : s.l_bestBet = NULL
    · rw [if_pos hnull]
      exact .pure ⟨rfl, .inl ⟨rfl, rfl⟩⟩
    · rw [if_neg hnull]
      refine .next rfl ?_
      dsimp only
      split
      · exact .pure ⟨rfl, .inr ⟨rfl, rfl, hnull⟩⟩
      · exact .pure ⟨rfl, .inl ⟨rfl, rfl⟩⟩
  · obtain ⟨rfl, ⟨hbet, hmaj⟩ | ⟨hbet, hmaj, hne⟩⟩ := hw
    · exact from_start_ends hH hreq h hL (hmaj.trans h.rep.root) hbet rfl rfl (by omega)
    · rcases h.rep.bestBet with hnull | ⟨r, hr, hbest⟩
      · exact absurd hnull hne
      · obtain ⟨pre, post, rfl⟩ := List.append_of_mem hr
        refine from_bet_ends hH hreq h (hmaj.trans hbest) hbet rfl rfl ?_
        simp only [List.length_append, List.length_cons] at hlen ⊢
        omega

/-! ## The lock -/

theorem Placed.unlock {f : Hal.Flags} (h : Placed I req size pre r post s p s') :
    Placed I req size pre r post s p { s' with flags := f } := by
  cases h with
  | intro xs b ys s' hgap hreq hsize hgood hkept hpages =>
    exact .intro xs b ys _ hgap hreq hsize hgood.lock hkept hpages

theorem Malloced.unlock {f : Hal.Flags} (h : Malloced I req size L s p s') :
    Malloced I req size L s p { s' with flags := f } := by
  cases h with
  | placed pre r post p s' hL h => exact .placed pre r post p _ hL h.unlock
  | grown a p s₂ s' hfull hkept h => exact .grown a p s₂ _ hfull hkept h.unlock
  | refused s' hfull hgood hkept => exact .refused _ hfull hgood.lock hkept

/-- The first call: the block lies in the major that was just allocated. -/
theorem Malloced.of_root {a : Word} (hreq : Request req size)
    (h : Malloced I req size [Region.bare a (page_count size)] s₁ p s') : Malloced I req size [] s p s' := by
  have hroom := (bare_hasRoom hreq (a := a)).1
  cases h with
  | placed pre r post p s' hL h =>
    cases pre with
    | nil =>
      cases hL
      exact .grown a p s₁ s' nofun nofun h
    | cons q pre => simp at hL
  | grown _ _ _ _ hfull => exact absurd hroom (hfull _ (List.mem_singleton.mpr rfl))
  | refused _ hfull => exact absurd hroom (hfull _ (List.mem_singleton.mpr rfl))

/-- `kmalloc` after its test for a padded size of 0. -/
theorem kmalloc_sized_ends (hH : H.Sound I) (h : Good I s L) (hn : req.toNat + 80 < 2 ^ 32) :
    Ends IsHook (kmalloc_sized H req) s (Malloced I req (padded req) L s) := by
  have hpad : (padded req).toNat = req.toNat + 32 := by
    unfold padded
    rw [BitVec.toNat_add, show (ALIGNMENT + ALIGN_INFO).toNat = 32 from rfl]
    omega
  have hreq : Request req (padded req) := ⟨hpad, by omega⟩
  have hlocked : Good I { s with flags := s.flags.hal_disableInterrupts } L := h.lock
  refine .next rfl ?_
  cases L with
  | nil =>
    refine (root_ends hH hlocked hreq.small).bind fun ready s' hs' => ?_
    cases hs' with
    | refused s' hgood =>
      rw [if_neg (by simp)]
      exact .of_ok rfl (.refused _ nofun hgood.lock nofun)
    | page a s' hgood =>
      rw [if_pos rfl]
      exact (search_ends hH hreq hgood (by simp)).bind fun p s'' hp => .of_ok rfl (hp.of_root hreq).unlock
  | cons r rest =>
    have hr := h.rep.ok.regions r (by simp)
    have hroot : s.l_memRoot ≠ NULL := by
      rw [h.rep.root]
      exact hr.pos
    have hready : (ensure_root H (padded req)).run { s with flags := s.flags.hal_disableInterrupts } =
        (.ok true, { s with flags := s.flags.hal_disableInterrupts }) := by
      show (if s.l_memRoot = NULL then _ else _ : Code ε σ Bool).run _ = _
      rw [if_neg hroot]
      rfl
    refine .next hready ?_
    rw [if_pos rfl]
    exact (search_ends hH hreq hlocked (by simp)).bind fun p s'' hp =>
      .of_ok rfl (Malloced.of_same (s := s) hp rfl rfl).unlock

/-- **`kmalloc`.** A call for less than 4 GiB less 80 bytes places a block in a gap, in a new major if no
gap has room, or is refused by the hook. -/
theorem kmalloc_ends (hH : H.Sound I) (h : Good I s L) (hn : req.toNat + 80 < 2 ^ 32) :
    Ends IsHook (kmalloc H req) s (Malloced I req (padded req) L s) := by
  have hne : padded req ≠ 0 := by
    intro hzero
    have hnat := congrArg BitVec.toNat hzero
    unfold padded at hnat
    rw [BitVec.toNat_add, show (ALIGNMENT + ALIGN_INFO).toNat = 32 from rfl, show (0 : Word).toNat = 0 from rfl] at hnat
    omega
  rw [kmalloc, if_neg hne]
  exact kmalloc_sized_ends hH h hn

/-! ## The new block -/

/-- `L'` has the block `b` besides those of `L`. -/
structure Gains (L : List Region) (b : Block) (L' : List Region) : Prop where
  blocks : ∀ c, c ∈ blocks L' ↔ c = b ∨ c ∈ blocks L
  fresh : b ∉ Liballoc.blocks L
  tidy : Tidy L → Tidy L'

theorem gains_holding {xs ys : List Block} {b : Block} (hL : Ok (pre ++ r.holding (xs ++ b :: ys) :: post))
    (hblocks : r.blocks = xs ++ ys) : Gains (pre ++ r :: post) b (pre ++ r.holding (xs ++ b :: ys) :: post) := by
  have hr : (r.holding (xs ++ b :: ys)).holding (xs ++ ys) = r := by rw [← hblocks]; rfl
  have hmem : ∀ c, c ∈ blocks (pre ++ r :: post) ↔
      c ∈ blocks (pre ++ r.holding (xs ++ b :: ys) :: post) ∧ c ≠ b := by
    intro c
    have hc := hL.mem_blocks_holding (c := c) rfl
    rwa [hr] at hc
  have hb : b ∈ blocks (pre ++ r.holding (xs ++ b :: ys) :: post) :=
    mem_blocks.mpr ⟨r.holding (xs ++ b :: ys), by simp, by simp [Region.holding]⟩
  refine ⟨fun c => ?_, fun hfresh => ((hmem b).mp hfresh).2 rfl, fun htidy q hq => ?_⟩
  · rw [hmem]
    by_cases hc : c = b
    · simp [hc, hb]
    · simp [hc]
  · simp only [List.mem_append, List.mem_cons] at hq
    rcases hq with hq | rfl | hq
    · exact htidy q (by simp [hq])
    · simp [Region.holding]
    · exact htidy q (by simp [hq])

/-- A block of the given sizes has been placed, or the call was refused. -/
theorem Malloced.cases (h : Malloced I req size L s p s') :
    p = NULL ∧ Good I s' L ∧ PayloadsKept (blocks L) s.memory s'.memory ∨
      ∃ b L', p = b.payload ∧ b.req = req ∧ b.size = size ∧ Gains L b L' ∧ Good I s' L' ∧
        PayloadsKept (blocks L) s.memory s'.memory := by
  cases h with
  | placed pre r post p s' hL h =>
    cases h with
    | intro xs b ys s' hgap hreq hsize hgood hkept hpages =>
      subst hL
      exact .inr ⟨b, _, rfl, hreq, hsize, gains_holding hgood.rep.ok hgap.blocks, hgood, hkept⟩
  | grown a p s₁ s' hfull hkept h =>
    cases h with
    | intro xs b ys s' hgap hreq hsize hgood hkept' hpages =>
      have hgains := gains_holding hgood.rep.ok hgap.blocks
      have hbare : ∀ c, c ∈ blocks (L ++ [Region.bare a (page_count size)]) ↔ c ∈ blocks L := by
        simp [blocks, Region.bare]
      refine .inr ⟨b, _, rfl, hreq, hsize, ⟨fun c => ?_, ?_, ?_⟩, hgood, ?_⟩
      · rw [hgains.blocks, hbare]
      · rw [← hbare]
        exact hgains.fresh
      · intro htidy q hq
        rcases List.mem_append.mp hq with hq | hq
        · exact htidy q hq
        · rw [List.mem_singleton.mp hq]
          simp [Region.holding]
      · exact hkept.trans hkept' fun c hc => (hbare c).mpr hc
  | refused s' hfull hgood hkept => exact .inl ⟨rfl, hgood, hkept⟩

end

end Condor.Heap.Liballoc
