import Condor.Heap.Growing

/-!
# `kfree`

A block is taken out of its region. A region that still has blocks may become the best
bet; one that has none is unlinked and its pages are given back. In front of a pointer
that was freed the magic number is dead, so a second `kfree` of it only counts an error
(`kfree_lied`), as long as nobody has used the memory again.
-/

namespace Condor.Heap.Liballoc

open Lib Lib.Prog

section
variable {ε σ : Type} {H : Hooks ε σ} {I : σ → List Pages → Prop} {s s₁ s' : State σ} {L pre post : List Region}
  {r : Region} {xs ys : List Block} {b : Block} {m' : Memory 32} {p q : Word}

/-- What `kfree` ends with, for the block `b` between `xs` and `ys`. -/
inductive Freed (I : σ → List Pages → Prop) (pre : List Region) (r : Region) (post : List Region)
    (xs : List Block) (b : Block) (ys : List Block) (s s' : State σ) : Prop
  | kept (hne : xs ++ ys ≠ []) (hgood : Good I s' (pre ++ r.holding (xs ++ ys) :: post))
      (hkept : PayloadsKept (blocks (pre ++ r.holding (xs ++ ys) :: post)) s.memory s'.memory)
      (hpages : s'.pages = s.pages) (hdead : (Minor.codec.read s'.memory b.addr).magic = LIBALLOC_DEAD)
      (hmark : s'.memory b.mark = align_mark (b.addr + sizeof_minor)) : Freed I pre r post xs b ys s s'
  | released (hempty : xs ++ ys = []) (hgood : Good I s' (pre ++ post))
      (hkept : PayloadsKept (blocks (pre ++ post)) s.memory s'.memory) : Freed I pre r post xs b ys s s'

/-! ## Giving pages back -/

theorem call_free_ok {a n x : Word} {t : σ} (h : H.liballoc_free a n (s.pages, s.memory) = .ok (x, t, m')) :
    (call_free H a n).run s = (.ok (), { s with memory := m', pages := t }) := by
  simp only [call_free, h]

theorem call_free_error {a n : Word} {e : ε} (h : H.liballoc_free a n (s.pages, s.memory) = .error e) :
    (call_free H a n).run s = (.error (.hook e), s) := by
  simp only [call_free, h]

/-- The hook for the pages of a region that is in no list any more. -/
theorem call_free_ends (hH : H.Sound I) (hrep : Rep s (pre ++ post)) (hgiven : Given I s.pages (pre ++ r :: post)) :
    Ends IsHook (call_free H r.addr r.pages) s fun _ s' =>
      Good I s' (pre ++ post) ∧ PayloadsKept (blocks (pre ++ post)) s.memory s'.memory := by
  obtain ⟨live, hI, hperm⟩ := hgiven
  rw [List.map_append, List.map_cons] at hperm
  have hperm' : (live.erase r.given).Perm ((pre ++ post).map Region.given) := by
    have herase := (hperm.trans List.perm_middle).erase r.given
    rwa [List.erase_cons_head, ← List.map_append] at herase
  cases hcall : H.liballoc_free r.addr r.pages (s.pages, s.memory) with
  | error e => exact .of_error (call_free_error hcall) trivial
  | ok out =>
    obtain ⟨x, t, m⟩ := out
    have hmem : r.given ∈ live := hperm.mem_iff.mpr (by simp)
    obtain ⟨hsame, hI'⟩ := hH.free _ _ r.given _ _ _ _ hI hmem hcall
    have hkept : Kept (pre ++ post) s.memory m := fun q hq x hx =>
      hsame q.given (hperm'.mem_iff.mpr (List.mem_map_of_mem hq)) x hx
    refine .of_ok (call_free_ok hcall) ⟨⟨hrep.agree (fun x hx => ?_) rfl rfl rfl rfl, _, hI', hperm'⟩,
      hkept.payloads hrep.ok⟩
    obtain ⟨q, hq, hx⟩ := hx.home hrep.ok
    exact hkept q hq x hx

/-! ## Payloads of other blocks -/

theorem Removed.payloads (hrem : Removed s.memory m' r xs b ys) (h : Rep s (pre ++ r :: post))
    (hblocks : r.blocks = xs ++ b :: ys) :
    PayloadsKept (blocks (pre ++ r.holding (xs ++ ys) :: post)) s.memory m' := by
  intro c hc x hx
  obtain ⟨q, hq, hcq⟩ := mem_blocks.mp hc
  have hL : Ok (pre ++ r.holding (xs ++ b :: ys) :: post) := h.ok.holding (hblocks ▸ h.ok.regions r (by simp))
  refine hrem.frame x fun ht => ?_
  simp only [List.mem_append, List.mem_cons] at hq
  rcases hq with hq | rfl | hq
  · exact not_own_of_payload hL (by simp [hq]) hcq hx ht.own
  · refine not_own_of_payload hL (r := r.holding (xs ++ b :: ys)) (by simp) ?_ hx ht.own
    simp only [Region.holding, List.mem_append, List.mem_cons] at hcq ⊢
    tauto
  · exact not_own_of_payload hL (by simp [hq]) hcq hx ht.own

theorem Dropped.payloads (hdrop : Dropped s.memory m' pre post) (hL : Ok (pre ++ post)) :
    PayloadsKept (blocks (pre ++ post)) s.memory m' := by
  intro c hc x hx
  obtain ⟨q, hq, hcq⟩ := mem_blocks.mp hc
  obtain ⟨h1, h2⟩ := hL.payload_home hq hcq hx
  exact hdrop.frame x (not_beside hL hq h1 h2.2)

/-! ## Freeing -/

/-- A region that still has blocks. -/
theorem bet_on_ends {t : Major} (h : Good I s (pre ++ r :: post)) :
    Ends IsHook (bet_on r.addr t : Code ε σ Unit) s fun _ s' =>
      Good I s' (pre ++ r :: post) ∧ s'.memory = s.memory ∧ s'.pages = s.pages := by
  rw [bet_on]
  refine .next rfl ?_
  by_cases hnull : s.l_bestBet = NULL
  · rw [whenever_neg (not_not.mpr hnull)]
    exact .pure ⟨h, rfl, rfl⟩
  rw [whenever_pos hnull]
  refine .next rfl ?_
  by_cases hless : ((Major.codec.read s.memory s.l_bestBet).size - (Major.codec.read s.memory s.l_bestBet).usage).toInt
      < (t.size - t.usage).toInt
  · rw [whenever_pos hless]
    refine .of_ok rfl ⟨⟨?_, h.given⟩, rfl, rfl⟩
    exact ⟨h.rep.ok, h.rep.root, h.rep.majors, h.rep.minors, h.rep.marks, .inr ⟨r, by simp, rfl⟩,
      h.rep.allocated, h.rep.inuse⟩
  · rw [whenever_neg hless]
    exact .pure ⟨h, rfl, rfl⟩

/-- A region that has no blocks any more. -/
theorem release_major_ends (hH : H.Sound I) (h : Good I s (pre ++ r :: post)) (hempty : r.blocks = []) :
    Ends IsHook (release_major H r.addr (Major.codec.read s.memory r.addr)) s fun _ s' =>
      Good I s' (pre ++ post) ∧ PayloadsKept (blocks (pre ++ post)) s.memory s'.memory := by
  have hmajor := h.rep.major_eq
  obtain ⟨m', hrun, hdrop⟩ := unlink_major_run (ε := ε) (s := s) (t := Major.codec.read s.memory r.addr) h.rep.ok
    (by rw [hmajor]) (by rw [hmajor])
  have hkept := hdrop.payloads h.rep.ok.drop
  have hpages : (Major.codec.read s.memory r.addr).pages = r.pages := by rw [hmajor]
  rw [release_major]
  refine .next hrun ?_
  rw [hpages]
  refine (call_free_ends hH (hdrop.rep h.rep hempty) h.given).imp fun _ s' hs' => ?_
  exact ⟨hs'.1, hkept.trans hs'.2 fun _ hc => hc⟩

theorem release_ends (hH : H.Sound I) (h : Good I s (pre ++ r :: post)) (hblocks : r.blocks = xs ++ b :: ys) :
    Ends IsHook (release H b.addr (Minor.codec.read s.memory b.addr)) s fun _ => Freed I pre r post xs b ys s := by
  obtain ⟨m', hrun, hrem⟩ := unlink_minor_run (ε := ε) h.rep hblocks
  have hgood : Good I { s with memory := m', l_inuse := s.l_inuse - b.size.setWidth 64 }
      (pre ++ r.holding (xs ++ ys) :: post) := by
    refine ⟨hrem.rep h.rep hblocks, ?_⟩
    obtain ⟨live, hI, hperm⟩ := h.given
    refine ⟨live, hI, ?_⟩
    rwa [List.map_append, List.map_cons] at hperm ⊢
  have hblock : (Minor.codec.read s.memory b.addr).block = r.addr := by rw [h.rep.minor_eq (by simp) hblocks]
  have hfirst : (Major.codec.read m' r.addr).first = (Block.dlist r.addr).start (xs ++ ys) NULL :=
    (congrArg Major.first hgood.rep.major_eq).trans rfl
  have hkept := hrem.payloads h.rep hblocks
  rw [release]
  refine .next hrun (.next rfl ?_)
  rw [hblock]
  dsimp only
  cases hrest : xs ++ ys with
  | nil =>
    rw [if_pos (by rw [hfirst, hrest, Dlist.start_nil])]
    refine (release_major_ends hH hgood hrest).imp fun _ s' hs' => ?_
    refine .released hrest hs'.1 (PayloadsKept.trans (hkept.mono fun c hc => ?_) hs'.2 fun _ hc => hc)
    obtain ⟨q, hq, hcq⟩ := mem_blocks.mp hc
    exact mem_blocks.mpr ⟨q, by simp only [List.mem_append, List.mem_cons] at hq ⊢; tauto, hcq⟩
  | cons c rest =>
    have hc := (hgood.rep.ok.regions (r.holding (xs ++ ys)) (by simp)).block (b := c)
      (by simp [Region.holding, hrest])
    have hne : (Block.dlist r.addr).start (xs ++ ys) NULL ≠ NULL := by
      rw [hrest, Dlist.start_cons, Block.dlist_addr]
      exact hc.addr_ne
    rw [if_neg (by rwa [hfirst])]
    refine (bet_on_ends hgood).imp fun _ s' hs' => ?_
    obtain ⟨hgood', hmem, hpages⟩ := hs'
    refine .kept (by simp [hrest]) hgood' (hmem ▸ hkept) hpages ?_ ?_
    · rw [hmem]
      exact congrArg Minor.magic hrem.minor
    · rw [hmem]
      exact hrem.mark.trans (h.rep.marks r (by simp) b (by simp [hblocks]))

/-- The pointer of a block leads back to its header. -/
theorem UNALIGN_payload (h : Rep s L) (hr : r ∈ L) (hb : b ∈ r.blocks) :
    (UNALIGN b.payload : Code ε σ Word).run s = (.ok (b.addr + sizeof_minor), s) :=
  UNALIGN_aligned (h.marks r hr b hb)

theorem Block.In.payload_ne (h : b.In r) : b.payload ≠ NULL := by
  intro hnull
  have h1 := h.payload_inside
  rw [hnull, toNat_NULL] at h1
  omega

theorem Freed.unlock {f g : Hal.Flags} (h : Freed I pre r post xs b ys { s with flags := f } s') :
    Freed I pre r post xs b ys s { s' with flags := g } := by
  cases h with
  | kept hne hgood hkept hpages hdead hmark => exact .kept hne hgood.lock hkept hpages hdead hmark
  | released hempty hgood hkept => exact .released hempty hgood.lock hkept

/-- **`kfree`** of the pointer of a block. -/
theorem kfree_ends (hH : H.Sound I) (h : Good I s (pre ++ r :: post)) (hblocks : r.blocks = xs ++ b :: ys) :
    Ends IsHook (kfree H b.payload) s fun _ => Freed I pre r post xs b ys s := by
  have hr := h.rep.ok.regions r (by simp)
  have hb := hr.block (b := b) (by simp [hblocks])
  have hlocked : Good I { s with flags := s.flags.hal_disableInterrupts } (pre ++ r :: post) := h.lock
  rw [kfree, if_neg hb.payload_ne]
  refine .next (UNALIGN_payload h.rep (r := r) (by simp) (by simp [hblocks])) (.next rfl (.next rfl ?_))
  rw [BitVec.add_sub_cancel]
  have hmagic : (Minor.codec.read s.memory b.addr).magic = LIBALLOC_MAGIC := by
    rw [h.rep.minor_eq (by simp) hblocks]
  dsimp only
  rw [if_neg (not_not.mpr hmagic)]
  exact (release_ends hH hlocked hblocks).bind fun _ s' hs' => .of_ok rfl hs'.unlock

/-- `L'` has the blocks of `L` but `b`. -/
structure Loses (L : List Region) (b : Block) (L' : List Region) : Prop where
  blocks : ∀ c, c ∈ blocks L' ↔ c ∈ blocks L ∧ c ≠ b
  tidy : Tidy L → Tidy L'

theorem Freed.loses (h : Freed I pre r post xs b ys s s') (hL : Ok (pre ++ r :: post))
    (hblocks : r.blocks = xs ++ b :: ys) :
    ∃ L', Loses (pre ++ r :: post) b L' ∧ Good I s' L' ∧ PayloadsKept (blocks L') s.memory s'.memory := by
  cases h with
  | kept hne hgood hkept =>
    refine ⟨_, ⟨fun c => hL.mem_blocks_holding hblocks, fun htidy q hq => ?_⟩, hgood, hkept⟩
    simp only [List.mem_append, List.mem_cons] at hq
    rcases hq with hq | rfl | hq
    · exact htidy q (by simp [hq])
    · exact hne
    · exact htidy q (by simp [hq])
  | released hempty hgood hkept =>
    refine ⟨_, ⟨fun c => ?_, fun htidy q hq => ?_⟩, hgood, hkept⟩
    · rw [← hL.mem_blocks_holding hblocks, hempty]
      simp [blocks, Region.holding]
    · refine htidy q ?_
      simp only [List.mem_append, List.mem_cons] at hq ⊢
      tauto

theorem kfree_block_ends (hH : H.Sound I) (h : Good I s L) (hb : b ∈ blocks L) :
    Ends IsHook (kfree H b.payload) s fun _ s' =>
      ∃ L', Loses L b L' ∧ Good I s' L' ∧ PayloadsKept (blocks L') s.memory s'.memory := by
  obtain ⟨r, hr, hbr⟩ := mem_blocks.mp hb
  obtain ⟨pre, post, rfl⟩ := List.append_of_mem hr
  obtain ⟨xs, ys, hblocks⟩ := List.append_of_mem hbr
  exact (kfree_ends hH h hblocks).imp fun _ s' hs' => hs'.loses h.rep.ok hblocks

/-- The state after an error that has been counted. -/
def State.lied_to (s : State σ) (magic : Word) : State σ :=
  { s with
    l_errorCount := s.l_errorCount + 1
    l_possibleOverruns := if overrun magic then s.l_possibleOverruns + 1 else s.l_possibleOverruns }

theorem lied_run (magic : Word) : (lied magic : Code ε σ Unit).run s = (.ok (), s.lied_to magic) := by
  unfold lied State.lied_to
  cases hover : overrun magic with
  | true =>
    rw [whenever_pos rfl]
    rfl
  | false =>
    rw [whenever_neg (by simp)]
    rfl

/-- A pointer with no magic number in front of it: an error is counted and nothing else happens. -/
theorem kfree_lied (hp : p ≠ NULL) (hq : (UNALIGN p : Code ε σ Word).run s = (.ok q, s))
    (hmagic : (Minor.codec.read s.memory (q - sizeof_minor)).magic ≠ LIBALLOC_MAGIC) :
    (kfree H p).run s = (.ok (), { s.lied_to (Minor.codec.read s.memory (q - sizeof_minor)).magic with
      flags := s.flags.hal_disableInterrupts.hal_restoreInterrupts }) := by
  have hlock : (liballoc_lock : Code ε σ Unit).run s =
      (.ok (), { s with flags := s.flags.hal_disableInterrupts }) := rfl
  have hread : (minor (q - sizeof_minor) : Code ε σ Minor).run { s with flags := s.flags.hal_disableInterrupts } =
      (.ok (Minor.codec.read s.memory (q - sizeof_minor)), { s with flags := s.flags.hal_disableInterrupts }) := rfl
  rw [kfree, if_neg hp, bind_ok hq, bind_ok hlock, bind_ok hread, if_pos hmagic, bind_ok (lied_run _)]
  rfl

end

end Condor.Heap.Liballoc
