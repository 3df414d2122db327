import Condor.Heap.Copying
import Condor.Heap.Lock

/-!
# `kcalloc` and `krealloc`

`krealloc` shrinks a block in place: only the size in its header changes (`shrink_rep`).
A larger size is a new block, which gets the bytes of the old one, and the old one is
freed. Neither function looks whether `kmalloc` was refused: what it then fills or copies
to lies at address 0 (`kcalloc_ends`, `Realloced.refused`).
-/

namespace Condor.Heap.Liballoc

open Lib Lib.Prog

section
variable {ε σ : Type} {H : Hooks ε σ} {I : σ → List Pages → Prop} {s s₁ s' : State σ} {L pre post : List Region}
  {r : Region} {xs ys : List Block} {b c : Block} {m' : Memory 32} {nobj size n p q : Word}

/-! ## What the owner of a block may write -/

theorem Good.written (h : Good I s L) (hb : b ∈ blocks L) (hm : ∀ x, ¬ b.Payload x → m' x = s.memory x) :
    Good I { s with memory := m' } L := by
  obtain ⟨r, hr, hbr⟩ := mem_blocks.mp hb
  refine ⟨h.rep.agree (fun x hx => hm x fun hp => ?_) rfl rfl rfl rfl, h.given⟩
  exact not_own_of_payload h.rep.ok hr hbr hp hx

/-- A byte belongs to one payload. -/
theorem Ok.payload_unique {x : Word} (hL : Ok L) (hb : b ∈ blocks L) (hc : c ∈ blocks L) (hx : b.Payload x)
    (hy : c.Payload x) : b = c := by
  obtain ⟨r, hr, hb⟩ := mem_blocks.mp hb
  obtain ⟨q, hq, hc⟩ := mem_blocks.mp hc
  exact (hL.same_payload hr hq hb hc hx hy).2

/-! ## `kcalloc` -/

theorem kcalloc_ends (hH : H.Sound I) (h : Good I s L) (hn : (nobj * size).toNat + 80 < 2 ^ 32) :
    Ends IsHook (kcalloc H nobj size) s fun p s' =>
      ∃ s₁, Malloced I (nobj * size) (padded (nobj * size)) L s p s₁ ∧
        s' = { s₁ with memory := filled (nobj * size).toNat p (fun _ => 0) s₁.memory } :=
  (kmalloc_ends hH h hn).bind fun _ s₁ hs₁ => .next memset_run (.pure ⟨s₁, hs₁, rfl⟩)

/-- The bytes of a payload that does not wrap, filled. -/
theorem filled_payload {m : Memory 32} {v : BitVec 8} (hb : b.In r) :
    (∀ x, b.Payload x → filled b.req.toNat b.payload (fun _ => v) m x = v) ∧
      ∀ x, ¬ b.Payload x → filled b.req.toNat b.payload (fun _ => v) m x = m x := by
  have hle : b.payload.toNat + b.req.toNat ≤ 2 ^ 32 := by
    have h1 := hb.payload_inside
    have h2 := hb.hi
    have h3 := hb.high
    unfold Block.fin at h1
    omega
  exact ⟨fun x hx => if_pos ((lt_iff_among hle x).mpr hx), fun x hx => filled_outside _ _ hle hx⟩

/-! ## Shrinking -/

/-- The block with another size asked for. -/
def Block.asking (b : Block) (n : Word) : Block := { b with req := n }

theorem shrink_rep (h : Rep s (pre ++ r :: post)) (hblocks : r.blocks = xs ++ b :: ys)
    (hn : n.toNat ≤ b.req.toNat) :
    Rep { s with memory := Minor.codec.write s.memory b.addr { Minor.codec.read s.memory b.addr with req_size := n } }
      (pre ++ r.holding (xs ++ b.asking n :: ys) :: post) := by
  have hr : r.Ok := h.ok.regions r (by simp)
  have hok : (r.holding (xs ++ b :: ys)).Ok := hblocks ▸ hr
  have hin := hr.block (b := b) (by simp [hblocks])
  have hhb : b.addr.toNat + 24 ≤ 2 ^ 32 := hin.header_le
  have hlinked := h.minors r (by simp)
  rw [hblocks] at hlinked
  refine h.update_region ⟨hr.pos, hr.pages, hr.high, ?_, fun c hc => ?_⟩ ?_ ?_ (fun c hc => ?_) (fun x hx => ?_)
    rfl rfl rfl ?_
  · have hpacked := hr.packed
    rw [hblocks] at hpacked
    exact hpacked.replace rfl rfl
  · simp only [Region.holding, List.mem_append, List.mem_cons] at hc
    rcases hc with hc | rfl | hc
    · exact hr.padded c (by simp [hblocks, hc])
    · have hpadded := hin.padded
      show n.toNat + 32 ≤ b.size.toNat
      omega
    · exact hr.padded c (by simp [hblocks, hc])
  · have hused : r.used = (r.holding (xs ++ b.asking n :: ys)).used := by
      unfold Region.used Region.holding
      rw [hblocks, Spans.total_append, Spans.total_append]
      rfl
    have hfirst : r.first = (r.holding (xs ++ b.asking n :: ys)).first := by
      unfold Region.first Region.holding
      rw [hblocks, Dlist.start_append, Dlist.start_append]
      rfl
    rw [← hused, ← hfirst]
    refine (major_minor hin.apart_major.symm).trans ?_
    rw [h.major_eq]
  · refine hlinked.replace rfl ?_ fun c hc => minor_minor ?_
    · refine minor_same.trans ?_
      rw [h.minor_eq (by simp) hblocks]
      rfl
    · have hpacked := hr.packed
      rw [hblocks] at hpacked
      have hc' := hr.block (b := c) (by rw [hblocks, List.mem_append, List.mem_cons]; tauto)
      rcases hc with hc | hc
      · exact hc'.apart hin (hpacked.le_of_front hc)
      · exact (hin.apart hc' (hpacked.le_of_back hc)).symm
  · show Minor.codec.write s.memory b.addr _ c.mark = _
    simp only [List.mem_append, List.mem_cons] at hc
    by_cases hcb : c = b.asking n
    · subst hcb
      exact (minor_outside hhb hin.mark_not_self).trans (h.marks r (by simp) b (by simp [hblocks]))
    · have hc' : c ∈ xs ++ ys := by
        rw [List.mem_append]
        tauto
      refine (minor_outside hhb fun hx => not_touched_mark hok hc' (.minor hx)).trans (h.marks r (by simp) c ?_)
      rw [hblocks]
      simp only [List.mem_append, List.mem_cons] at hc' ⊢
      tauto
  · exact minor_outside hhb fun hx' => hx ((Touched.minor hx').home hok)
  · show s.l_inuse = _
    rw [h.inuse]
    simp only [bytes_inuse, Region.holding, hblocks, List.flatMap_append, List.flatMap_cons, List.map_append,
      List.map_cons]
    rfl

/-- The blocks after `b` has been shrunk. -/
theorem mem_blocks_shrunk (hL : Ok (pre ++ r :: post)) (hL' : Ok (pre ++ r.holding (xs ++ b.asking n :: ys) :: post))
    (hblocks : r.blocks = xs ++ b :: ys) :
    c ∈ blocks (pre ++ r.holding (xs ++ b.asking n :: ys) :: post) ↔
      c = b.asking n ∨ c ∈ blocks (pre ++ r :: post) ∧ c ≠ b := by
  rw [← hL.mem_blocks_holding hblocks]
  exact (gains_holding (r := r.holding (xs ++ ys)) hL' rfl).blocks c

/-! ## `krealloc` -/

/-- What `krealloc` ends with, for the block `b`. -/
inductive Realloced (H : Hooks ε σ) (I : σ → List Pages → Prop) (L : List Region) (b : Block) (n : Word)
    (s : State σ) : Word → State σ → Prop
  | freed (L' : List Region) (s' : State σ) (hn : n = 0) (hloses : Loses L b L') (hgood : Good I s' L')
      (hkept : PayloadsKept (blocks L') s.memory s'.memory) : Realloced H I L b n s NULL s'
  | shrunk (L' : List Region) (s' : State σ) (hn : n ≠ 0) (hle : n.toNat ≤ b.req.toNat)
      (hblocks : ∀ c, c ∈ blocks L' ↔ c = b.asking n ∨ c ∈ blocks L ∧ c ≠ b) (htidy : Tidy L → Tidy L')
      (hgood : Good I s' L') (hkept : PayloadsKept (blocks L) s.memory s'.memory) :
      Realloced H I L b n s b.payload s'
  | moved (c : Block) (L₁ L' : List Region) (s' : State σ) (hlt : b.req.toNat < n.toNat) (hreq : c.req = n)
      (hgains : Gains L c L₁) (hloses : Loses L₁ b L') (hgood : Good I s' L')
      (hkept : ∀ d ∈ blocks L, d ≠ b → ∀ x, d.Payload x → s'.memory x = s.memory x)
      (hmoved : ∀ i < b.req.toNat,
        s'.memory (c.payload + BitVec.ofNat 32 i) = s.memory (b.payload + BitVec.ofNat 32 i)) :
      Realloced H I L b n s c.payload s'
  | refused (s₁ s' : State σ) (hlt : b.req.toNat < n.toNat) (hgood : Good I s₁ L)
      (hkept : PayloadsKept (blocks L) s.memory s₁.memory)
      (hrun : (kfree H b.payload).run { s₁ with memory := moved b.req.toNat NULL b.payload s₁.memory } = (.ok (), s')) :
      Realloced H I L b n s NULL s'

theorem Realloced.unlocked {f : Hal.Flags} (h : Realloced H I L b n { s with flags := f } q s') :
    Realloced H I L b n s q s' := by
  cases h with
  | freed L' s' hn hloses hgood hkept => exact .freed L' s' hn hloses hgood hkept
  | shrunk L' s' hn hle hblocks htidy hgood hkept => exact .shrunk L' s' hn hle hblocks htidy hgood hkept
  | moved c L₁ L' s' hlt hreq hgains hloses hgood hkept hmoved =>
    exact .moved c L₁ L' s' hlt hreq hgains hloses hgood hkept hmoved
  | refused s₁ s' hlt hgood hkept hrun => exact .refused s₁ s' hlt hgood hkept hrun

/-- Two blocks of a heap are one, or one lies behind the other. -/
theorem Ok.separate (hL : Ok L) (hb : b ∈ blocks L) (hc : c ∈ blocks L) :
    b = c ∨ b.fin ≤ c.addr.toNat ∨ c.fin ≤ b.addr.toNat := by
  obtain ⟨r, hr, hb⟩ := mem_blocks.mp hb
  obtain ⟨q, hq, hc⟩ := mem_blocks.mp hc
  rcases hL.regions_away hr hq with rfl | haway
  · exact (hL.regions r hr).blocks_apart hb hc
  · have hbr := (hL.regions r hr).block hb
    have hcq := (hL.regions q hq).block hc
    have h1 := hbr.lo
    have h2 := hbr.hi
    have h3 := hcq.lo
    have h4 := hcq.hi
    unfold Region.Away at haway
    unfold Block.fin
    omega

/-- A payload does not wrap. -/
theorem Ok.payload_le (hL : Ok L) (hb : b ∈ blocks L) : b.payload.toNat + b.req.toNat ≤ 2 ^ 32 := by
  obtain ⟨r, hr, hb⟩ := mem_blocks.mp hb
  have hin := (hL.regions r hr).block hb
  have h1 := hin.payload_inside
  have h2 := hin.hi
  have h3 := hin.high
  unfold Block.fin at h1
  omega

theorem Ok.payload_at {i : Nat} (hL : Ok L) (hb : b ∈ blocks L) (hi : i < b.req.toNat) :
    b.Payload (b.payload + BitVec.ofNat 32 i) := by
  have hwrap := hL.payload_le hb
  unfold Block.Payload Among
  rw [BitVec.toNat_add, toNat_ofNat_lt (by omega), Nat.mod_eq_of_lt (by omega)]
  omega

/-- The copy from one payload to another one. -/
theorem copy_fits (hL : Ok L) (hb : b ∈ blocks L) (hc : c ∈ blocks L) (hne : b ≠ c) (hle : b.req.toNat ≤ c.req.toNat) :
    (b.payload - c.payload).toNat + b.req.toNat ≤ 2 ^ 32 := by
  have hwrap := hL.payload_le hb
  have hapart := (hL.separate hb hc).resolve_left hne
  obtain ⟨r, hr, hbr⟩ := mem_blocks.mp hb
  obtain ⟨q, hq, hcq⟩ := mem_blocks.mp hc
  have hbin := ((hL.regions r hr).block hbr).payload_inside
  have hcin := ((hL.regions q hq).block hcq).payload_inside
  have hlt := b.payload.isLt
  have hlt' := c.payload.isLt
  rw [BitVec.toNat_sub]
  rcases hapart with hapart | hapart
  · rw [Nat.mod_eq_of_lt (by omega)]
    omega
  · rw [show 2 ^ 32 - c.payload.toNat + b.payload.toNat = b.payload.toNat - c.payload.toNat + 2 ^ 32 by omega,
      Nat.add_mod_right, Nat.mod_eq_of_lt (by omega)]
    omega

/-- Moving a block to where there is more room. -/
theorem move_to_new_ends (hH : H.Sound I) (h : Good I s L) (hb : b ∈ blocks L) (hlt : b.req.toNat < n.toNat)
    (hn : n.toNat + 80 < 2 ^ 32) :
    Ends IsHook (move_to_new H b.payload n b.req) s (Realloced H I L b n s) := by
  refine (kmalloc_ends hH h hn).bind fun q s₁ hs₁ => ?_
  rcases hs₁.cases with ⟨rfl, hgood₁, hkept₁⟩ | ⟨c, L₁, rfl, hreq, -, hgains, hgood₁, hkept₁⟩
  · -- the bytes are copied to address 0
    have hfits : (b.payload - NULL).toNat + b.req.toNat ≤ 2 ^ 32 := by
      rw [show b.payload - NULL = b.payload from sub_zero (G := Word) b.payload]
      exact h.rep.ok.payload_le hb
    refine .next (memcpy_run hfits) ((kfree_returns _ _).run.bind fun _ s' hrun => ?_)
    exact .pure (.refused s₁ s' hlt hgood₁ hkept₁ hrun)
  · have hb₁ : b ∈ blocks L₁ := (hgains.blocks b).mpr (.inr hb)
    have hc₁ : c ∈ blocks L₁ := (hgains.blocks c).mpr (.inl rfl)
    have hne : b ≠ c := fun heq => hgains.fresh (heq ▸ hb)
    have hle : b.req.toNat ≤ c.req.toNat := by rw [hreq]; omega
    have hwrap := hgood₁.rep.ok.payload_le hc₁
    refine .next (memcpy_run (copy_fits hgood₁.rep.ok hb₁ hc₁ hne hle)) ?_
    -- only bytes of the new block are written
    have houtside : ∀ x, ¬ c.Payload x → moved b.req.toNat c.payload b.payload s₁.memory x = s₁.memory x := by
      intro x hx
      refine if_neg fun hlt' => hx ?_
      have hamong := (lt_iff_among (show c.payload.toNat + b.req.toNat ≤ 2 ^ 32 by omega) x).mp hlt'
      exact ⟨hamong.1, Nat.lt_of_lt_of_le hamong.2 (by omega)⟩
    refine (kfree_block_ends hH (hgood₁.written hc₁ houtside) hb₁).bind fun _ s' hs' => ?_
    obtain ⟨L', hloses, hgood', hkept'⟩ := hs'
    refine .pure (.moved c L₁ L' s' hlt hreq hgains hloses hgood' (fun d hd hdb x hx => ?_) fun i hi => ?_)
    · have hd₁ : d ∈ blocks L₁ := (hgains.blocks d).mpr (.inr hd)
      refine (hkept' d ((hloses.blocks d).mpr ⟨hd₁, hdb⟩) x hx).trans ((houtside x fun hxc => ?_).trans (hkept₁ d hd x hx))
      exact hgains.fresh (hgood₁.rep.ok.payload_unique hd₁ hc₁ hx hxc ▸ hd)
    · have hxc := hgood₁.rep.ok.payload_at hc₁ (show i < c.req.toNat by omega)
      have hxb := h.rep.ok.payload_at hb hi
      refine (hkept' c ((hloses.blocks c).mpr ⟨hc₁, hne.symm⟩) _ hxc).trans (Eq.trans ?_ (hkept₁ b hb _ hxb))
      show moved b.req.toNat c.payload b.payload s₁.memory _ = _
      have hoff : c.payload + BitVec.ofNat 32 i - c.payload = BitVec.ofNat 32 i := add_sub_cancel_left (G := Word) ..
      rw [moved, hoff, if_pos (by rwa [toNat_ofNat_lt (by omega)])]

/-- **`krealloc`** of the pointer of a block. -/
theorem krealloc_ends (hH : H.Sound I) (h : Good I s L) (hb : b ∈ blocks L) (hn : n.toNat + 80 < 2 ^ 32) :
    Ends IsHook (krealloc H b.payload n) s (Realloced H I L b n s) := by
  rw [krealloc]
  by_cases hzero : n = 0
  · rw [if_pos hzero]
    refine (kfree_block_ends hH h hb).bind fun _ s' hs' => ?_
    obtain ⟨L', hloses, hgood, hkept⟩ := hs'
    exact .pure (.freed L' s' hzero hloses hgood hkept)
  obtain ⟨r, hr, hbr⟩ := mem_blocks.mp hb
  obtain ⟨pre, post, rfl⟩ := List.append_of_mem hr
  obtain ⟨xs, ys, hblocks⟩ := List.append_of_mem hbr
  have hin := (h.rep.ok.regions r hr).block hbr
  have hheader := h.rep.minor_eq hr hblocks
  rw [if_neg hzero, if_neg hin.payload_ne]
  refine .next (UNALIGN_payload h.rep hr hbr) (.next rfl (.next rfl ?_))
  rw [BitVec.add_sub_cancel]
  dsimp only
  rw [if_neg (by rw [hheader]; exact fun hne => hne rfl)]
  have hreq : (Minor.codec.read s.memory b.addr).req_size = b.req := by rw [hheader]
  rw [hreq]
  by_cases hle : n ≤ b.req
  · rw [if_pos hle]
    have hrep := shrink_rep h.rep hblocks hle
    refine .of_ok rfl (.shrunk _ _ hzero hle (fun c => mem_blocks_shrunk h.rep.ok hrep.ok hblocks) ?_
      ⟨hrep.agree (fun _ _ => rfl) rfl rfl rfl rfl, ?_⟩ fun d hd x hx => ?_)
    · intro htidy q hq
      simp only [List.mem_append, List.mem_cons] at hq
      rcases hq with hq | rfl | hq
      · exact htidy q (by simp [hq])
      · simp [Region.holding]
      · exact htidy q (by simp [hq])
    · obtain ⟨live, hI, hperm⟩ := h.given
      refine ⟨live, hI, ?_⟩
      rwa [List.map_append, List.map_cons] at hperm ⊢
    · obtain ⟨q, hq, hdq⟩ := mem_blocks.mp hd
      refine minor_outside hin.header_le fun hx' => ?_
      exact not_own_of_payload h.rep.ok hq hdq hx (.minor r hr b hbr hx')
  · rw [if_neg hle]
    have hlt : b.req.toNat < n.toNat := Nat.not_le.mp hle
    refine .next rfl ?_
    exact (move_to_new_ends hH h.lock hb hlt hn).imp fun q s' hs' => hs'.unlocked

end

end Condor.Heap.Liballoc
