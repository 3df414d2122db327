import Condor.Heap.Placing

/-!
# Taking a block out

`unlink_minor` is the part of `kfree` that takes a minor out of its major. Whatever
neighbours it has, the memory is then as `Removed` says and represents the heap without
the block (`Removed.rep`). A region that has no blocks left is taken out of the list of
majors before its pages are given back (`Dropped.rep`).
-/

namespace Condor.Heap.Liballoc

open Lib Lib.Prog

section
variable {ε σ : Type} {c : Prop} [Decidable c] {x : Code ε σ Unit}

theorem whenever_pos (h : c) : whenever c x = x := if_pos h

theorem whenever_neg (h : ¬ c) : whenever c x = pure () := if_neg h

end

section
variable {r q : Region} {xs ys zs ws : List Block} {b c z w : Block} {L pre post : List Region}

/-- What unlinking a minor does to the memory. -/
structure Removed (m m' : Memory 32) (r : Region) (xs : List Block) (b : Block) (ys : List Block) :
    Prop where
  minor : Minor.codec.read m' b.addr = { Minor.codec.read m b.addr with magic := LIBALLOC_DEAD }
  prev : ∀ zs z, xs = zs ++ [z] → Minor.codec.read m' z.addr =
    { Minor.codec.read m z.addr with next := (Block.dlist r.addr).start ys NULL }
  next : ∀ w ws, ys = w :: ws → Minor.codec.read m' w.addr =
    { Minor.codec.read m w.addr with prev := (Block.dlist r.addr).finish NULL xs }
  major : Major.codec.read m' r.addr =
    { Major.codec.read m r.addr with
      usage := (Major.codec.read m r.addr).usage - (b.size + sizeof_minor)
      first := (Block.dlist r.addr).start (xs ++ ys) NULL }
  mark : m' b.mark = m b.mark
  frame : ∀ x, ¬ Touched r xs b ys x → m' x = m x

theorem Block.In.addr_ne (h : b.In r) : b.addr ≠ NULL := by
  intro hnull
  have h1 := h.lo
  rw [hnull, toNat_NULL] at h1
  omega

end

/-! ## The cases -/

section
variable {ε σ : Type} {s : State σ} {r : Region} {xs ys zs ws : List Block} {b z w : Block} {t : Minor}

/-- The only minor. -/
theorem unlink_only_run (hr : r.Ok) (hblocks : r.blocks = [b])
    (ht : t = ⟨NULL, NULL, r.addr, LIBALLOC_MAGIC, b.size, b.req⟩) :
    ∃ m', (unlink_minor b.addr t : Code ε σ Unit).run s =
        (.ok (), { s with memory := m', l_inuse := s.l_inuse - b.size.setWidth 64 }) ∧
      Removed s.memory m' r [] b [] := by
  have hin := hr.block (b := b) (by simp [hblocks])
  have hhr : r.addr.toNat + 24 ≤ 2 ^ 32 := hr.header_le
  have hhb : b.addr.toNat + 24 ≤ 2 ^ 32 := hin.header_le
  have hap := hin.apart_major
  subst ht
  rw [unlink_minor, whenever_neg (fun h => h rfl), whenever_neg (fun h => h rfl), whenever_pos rfl]
  refine ⟨_, rfl, ?_, fun zs z hz => by simp at hz, nofun, ?_, ?_, ?_⟩
  · simp only [minor_major hap, minor_same]
  · simp only [major_same, major_minor hap.symm]
    rfl
  · dsimp only
    rw [major_outside hhr hin.mark_not_major, minor_outside hhb hin.mark_not_self,
      major_outside hhr hin.mark_not_major]
  · intro x hx
    dsimp only
    rw [major_outside hhr fun h => hx (.major h), minor_outside hhb fun h => hx (.minor h),
      major_outside hhr fun h => hx (.major h)]

/-- The first one of several minors. -/
theorem unlink_first_run (hr : r.Ok) (hblocks : r.blocks = b :: w :: ws)
    (ht : t = ⟨NULL, w.addr, r.addr, LIBALLOC_MAGIC, b.size, b.req⟩) :
    ∃ m', (unlink_minor b.addr t : Code ε σ Unit).run s =
        (.ok (), { s with memory := m', l_inuse := s.l_inuse - b.size.setWidth 64 }) ∧
      Removed s.memory m' r [] b (w :: ws) := by
  have hpacked := hr.packed
  rw [hblocks] at hpacked
  have hin := hr.block (b := b) (by simp [hblocks])
  have hw := hr.block (b := w) (by simp [hblocks])
  have hhr : r.addr.toNat + 24 ≤ 2 ^ 32 := hr.header_le
  have hhb : b.addr.toNat + 24 ≤ 2 ^ 32 := hin.header_le
  have hhw : w.addr.toNat + 24 ≤ 2 ^ 32 := hw.header_le
  have hap := hin.apart_major
  have hwr := hw.apart_major
  have hle' : b.fin ≤ w.addr.toNat := hpacked.le_of_cons (by simp)
  have hbw : Apart b.addr 24 w.addr 24 := hin.apart hw hle'
  subst ht
  rw [unlink_minor, whenever_pos hw.addr_ne, whenever_neg (fun h => h rfl), whenever_pos rfl]
  refine ⟨_, rfl, ?_, fun zs z hz => by simp at hz, fun w' ws' hw' => ?_, ?_, ?_, ?_⟩
  · simp only [minor_major hap, minor_minor hbw, minor_same]
  · cases hw'
    simp only [minor_major hwr, minor_minor hbw.symm, minor_same]
    rfl
  · simp only [major_same, major_minor hap.symm, major_minor hwr.symm]
    rfl
  · dsimp only
    rw [major_outside hhr hin.mark_not_major, minor_outside hhw (hin.mark_not_after hle'),
      minor_outside hhb hin.mark_not_self, major_outside hhr hin.mark_not_major]
  · intro x hx
    dsimp only
    rw [major_outside hhr fun h => hx (.major h), minor_outside hhw fun h => hx (.next w ws rfl h),
      minor_outside hhb fun h => hx (.minor h), major_outside hhr fun h => hx (.major h)]

/-- The last one of several minors. -/
theorem unlink_last_run (hr : r.Ok) (hblocks : r.blocks = zs ++ [z] ++ [b])
    (hfirst : (Major.codec.read s.memory r.addr).first = r.first)
    (ht : t = ⟨z.addr, NULL, r.addr, LIBALLOC_MAGIC, b.size, b.req⟩) :
    ∃ m', (unlink_minor b.addr t : Code ε σ Unit).run s =
        (.ok (), { s with memory := m', l_inuse := s.l_inuse - b.size.setWidth 64 }) ∧
      Removed s.memory m' r (zs ++ [z]) b [] := by
  have hpacked := hr.packed
  rw [hblocks] at hpacked
  have hin := hr.block (b := b) (by simp [hblocks])
  have hz := hr.block (b := z) (by simp [hblocks])
  have hhr : r.addr.toNat + 24 ≤ 2 ^ 32 := hr.header_le
  have hhb : b.addr.toNat + 24 ≤ 2 ^ 32 := hin.header_le
  have hhz : z.addr.toNat + 24 ≤ 2 ^ 32 := hz.header_le
  have hap := hin.apart_major
  have hzr := hz.apart_major
  have hle : z.fin ≤ b.addr.toNat := hpacked.le_of_front (by simp)
  have hzb : Apart z.addr 24 b.addr 24 := hz.apart hin hle
  subst ht
  rw [unlink_minor, whenever_neg (fun h => h rfl), whenever_pos hz.addr_ne, whenever_neg hz.addr_ne]
  refine ⟨_, rfl, ?_, fun zs' z' hz' => ?_, nofun, ?_, ?_, ?_⟩
  · simp only [minor_major hap, minor_minor hzb.symm, minor_same]
  · obtain ⟨-, hz'⟩ := List.append_inj' hz' rfl
    cases hz'
    simp only [minor_major hzr, minor_minor hzb, minor_same]
    rfl
  · simp only [major_same, major_minor hap.symm, major_minor hzr.symm]
    rw [hfirst, Region.first, hblocks, List.append_nil, Dlist.start_append]
    cases zs <;> rfl
  · dsimp only
    rw [minor_outside hhz (hin.mark_not_before hle), minor_outside hhb hin.mark_not_self,
      major_outside hhr hin.mark_not_major]
  · intro x hx
    dsimp only
    rw [minor_outside hhz fun h => hx (.prev zs z rfl h), minor_outside hhb fun h => hx (.minor h),
      major_outside hhr fun h => hx (.major h)]

/-- A minor between two others. -/
theorem unlink_between_run (hr : r.Ok) (hblocks : r.blocks = zs ++ [z] ++ b :: w :: ws)
    (hfirst : (Major.codec.read s.memory r.addr).first = r.first)
    (ht : t = ⟨z.addr, w.addr, r.addr, LIBALLOC_MAGIC, b.size, b.req⟩) :
    ∃ m', (unlink_minor b.addr t : Code ε σ Unit).run s =
        (.ok (), { s with memory := m', l_inuse := s.l_inuse - b.size.setWidth 64 }) ∧
      Removed s.memory m' r (zs ++ [z]) b (w :: ws) := by
  have hpacked := hr.packed
  rw [hblocks] at hpacked
  have hin := hr.block (b := b) (by simp [hblocks])
  have hz := hr.block (b := z) (by simp [hblocks])
  have hw := hr.block (b := w) (by simp [hblocks])
  have hhr : r.addr.toNat + 24 ≤ 2 ^ 32 := hr.header_le
  have hhb : b.addr.toNat + 24 ≤ 2 ^ 32 := hin.header_le
  have hhz : z.addr.toNat + 24 ≤ 2 ^ 32 := hz.header_le
  have hhw : w.addr.toNat + 24 ≤ 2 ^ 32 := hw.header_le
  have hap := hin.apart_major
  have hzr := hz.apart_major
  have hwr := hw.apart_major
  have hle : z.fin ≤ b.addr.toNat := hpacked.le_of_front (by simp)
  have hzb : Apart z.addr 24 b.addr 24 := hz.apart hin hle
  have hle' : b.fin ≤ w.addr.toNat := hpacked.le_of_back (by simp)
  have hbw : Apart b.addr 24 w.addr 24 := hin.apart hw hle'
  have hzw : Apart z.addr 24 w.addr 24 := hz.apart hw (hpacked.erase.le_of_front (by simp))
  subst ht
  rw [unlink_minor, whenever_pos hw.addr_ne, whenever_pos hz.addr_ne, whenever_neg hz.addr_ne]
  refine ⟨_, rfl, ?_, fun zs' z' hz' => ?_, fun w' ws' hw' => ?_, ?_, ?_, ?_⟩
  · simp only [minor_major hap, minor_minor hzb.symm, minor_minor hbw, minor_same]
  · obtain ⟨-, hz'⟩ := List.append_inj' hz' rfl
    cases hz'
    simp only [minor_major hzr, minor_minor hzb, minor_minor hzw, minor_same]
    rfl
  · cases hw'
    simp only [minor_major hwr, minor_minor hzw.symm, minor_minor hbw.symm, minor_same]
    rw [Dlist.finish_concat]
    rfl
  · simp only [major_same, major_minor hap.symm, major_minor hzr.symm, major_minor hwr.symm]
    rw [hfirst, Region.first, hblocks, Dlist.start_append, Dlist.start_append]
    cases zs <;> rfl
  · dsimp only
    rw [minor_outside hhz (hin.mark_not_before hle), minor_outside hhw (hin.mark_not_after hle'),
      minor_outside hhb hin.mark_not_self, major_outside hhr hin.mark_not_major]
  · intro x hx
    dsimp only
    rw [minor_outside hhz fun h => hx (.prev zs z rfl h), minor_outside hhw fun h => hx (.next w ws rfl h),
      minor_outside hhb fun h => hx (.minor h), major_outside hhr fun h => hx (.major h)]

/-- All cases. -/
theorem unlink_minor_run {pre post : List Region} (h : Rep s (pre ++ r :: post))
    (hblocks : r.blocks = xs ++ b :: ys) :
    ∃ m', (unlink_minor b.addr (Minor.codec.read s.memory b.addr) : Code ε σ Unit).run s =
        (.ok (), { s with memory := m', l_inuse := s.l_inuse - b.size.setWidth 64 }) ∧
      Removed s.memory m' r xs b ys := by
  have hr := h.ok.regions r (by simp)
  have hnode := h.minor_eq (by simp) hblocks
  have hfirst : (Major.codec.read s.memory r.addr).first = r.first := by rw [h.major_eq]
  rcases List.eq_nil_or_concat xs with rfl | ⟨zs, z, rfl⟩
  · cases ys with
    | nil => exact unlink_only_run hr hblocks hnode
    | cons w ws => exact unlink_first_run hr hblocks hnode
  rw [List.concat_eq_append] at hblocks hnode ⊢
  rw [Dlist.finish_concat] at hnode
  cases ys with
  | nil => exact unlink_last_run hr hblocks hfirst hnode
  | cons w ws => exact unlink_between_run hr hblocks hfirst hnode

end

/-! ## The heap after a removal -/

section
variable {r q : Region} {xs ys : List Block} {b c : Block} {pre post : List Region}

/-- The region without one of its blocks. -/
theorem Region.Ok.erase (hr : r.Ok) (hblocks : r.blocks = xs ++ b :: ys) : (r.holding (xs ++ ys)).Ok where
  pos := hr.pos
  pages := hr.pages
  high := hr.high
  packed := by
    have hpacked := hr.packed
    rw [hblocks] at hpacked
    exact hpacked.erase
  padded c hc := by
    refine hr.padded c ?_
    simp only [Region.holding, List.mem_append] at hc
    rw [hblocks]
    simp only [List.mem_append, List.mem_cons]
    tauto

theorem bytes_inuse_erase (hblocks : r.blocks = xs ++ b :: ys) :
    bytes_inuse (pre ++ r.holding (xs ++ ys) :: post) =
      bytes_inuse (pre ++ r :: post) - b.size.setWidth 64 := by
  simp only [bytes_inuse, Region.holding, hblocks, List.flatMap_append, List.flatMap_cons, List.map_append,
    List.map_cons, List.sum_append, List.sum_cons]
  abel

/-- **Removal.** The memory represents the heap without the block. -/
theorem Removed.rep {σ : Type} {s : State σ} {m' : Memory 32} (hrem : Removed s.memory m' r xs b ys)
    (h : Rep s (pre ++ r :: post)) (hblocks : r.blocks = xs ++ b :: ys) :
    Rep { s with memory := m', l_inuse := s.l_inuse - b.size.setWidth 64 }
      (pre ++ r.holding (xs ++ ys) :: post) := by
  have hr : r.Ok := h.ok.regions r (by simp)
  have hok : (r.holding (xs ++ b :: ys)).Ok := hblocks ▸ hr
  have hlinked := h.minors r (by simp)
  rw [hblocks] at hlinked
  refine h.update_region (hr.erase hblocks) ?_ ?_ ?_ ?_ rfl rfl rfl ?_
  · have husage : (Major.codec.read s.memory r.addr).usage - (b.size + sizeof_minor) =
        BitVec.ofNat 32 (r.holding (xs ++ ys)).used := by
      have hspan : Block.spans.fin b - Block.spans.start b = 24 + b.size.toNat := by
        show b.addr.toNat + 24 + b.size.toNat - b.addr.toNat = _
        omega
      have hused : r.used = (r.holding (xs ++ ys)).used + (b.size.toNat + 24) := by
        unfold Region.used Region.holding
        rw [hblocks, Spans.total_append, Spans.total_append, Spans.total, hspan]
        omega
      rw [h.major_eq, hused, BitVec.ofNat_add, BitVec.ofNat_add, BitVec.ofNat_toNat, BitVec.setWidth_eq]
      exact BitVec.add_sub_cancel ..
    rw [hrem.major, husage]
    rfl
  · refine hlinked.unlink ?_ ?_ (front_kept hok hrem.frame) (back_kept hok hrem.frame)
    · intro zs z hz
      show Minor.codec.read m' z.addr = _
      rw [hrem.prev zs z hz, h.minor_eq (by simp) (hblocks.trans (by rw [hz, List.append_assoc]; rfl))]
      rfl
    · intro w ws hw
      show Minor.codec.read m' w.addr = _
      have hsplit : r.blocks = (xs ++ [b]) ++ w :: ws := by rw [hblocks, hw, List.append_assoc]; rfl
      rw [hrem.next w ws hw, h.minor_eq (by simp) hsplit]
      rfl
  · intro c hc
    show m' c.mark = _
    rw [hrem.frame _ (not_touched_mark hok hc)]
    refine h.marks r (by simp) c ?_
    rw [hblocks]
    simp only [List.mem_append, List.mem_cons] at hc ⊢
    tauto
  · intro x hx
    exact hrem.frame x fun ht => hx (ht.home hok)
  · show s.l_inuse - _ = _
    rw [h.inuse, bytes_inuse_erase hblocks]

end

/-! ## Regions that are empty -/

section
variable {ε σ : Type} {s : State σ} {r q z w : Region} {pre post zs ws : List Region} {t : Major}

/-- A header next to the region that is unlinked. -/
inductive Beside (pre post : List Region) (x : Word) : Prop
  | prev (zs : List Region) (z : Region) (hz : pre = zs ++ [z]) (hx : Among z.addr 24 x)
  | next (w : Region) (ws : List Region) (hw : post = w :: ws) (hx : Among w.addr 24 x)

/-- What unlinking a major does to the memory. -/
structure Dropped (m m' : Memory 32) (pre post : List Region) : Prop where
  prev : ∀ zs z, pre = zs ++ [z] → Major.codec.read m' z.addr =
    { Major.codec.read m z.addr with next := Region.dlist.start post NULL }
  next : ∀ w ws, post = w :: ws → Major.codec.read m' w.addr =
    { Major.codec.read m w.addr with prev := Region.dlist.finish NULL pre }
  frame : ∀ x, ¬ Beside pre post x → m' x = m x

/-- The headers of two regions. -/
theorem Region.Ok.apart (hr : r.Ok) (hq : q.Ok) (h : r.Away q) : Apart r.addr 24 q.addr 24 := by
  have h1 := hr.pages
  have h2 := hq.pages
  have h3 := hr.high
  have h4 := hq.high
  unfold Region.Away Region.fin at h
  unfold Region.fin at h3 h4
  exact ⟨by omega, by omega, by omega⟩

/-- The state with everything of the last major but its links updated. -/
def State.dropped (s : State σ) (maj : Word) (m : Major) (memory : Memory 32) : State σ :=
  { s with
    memory := memory
    l_memRoot := if s.l_memRoot = maj then m.next else s.l_memRoot
    l_bestBet := if s.l_bestBet = maj then NULL else s.l_bestBet
    l_allocated := s.l_allocated - m.size.setWidth 64 }

theorem unlink_major_run (hL : Ok (pre ++ r :: post))
    (hprev : t.prev = Region.dlist.finish NULL pre) (hnext : t.next = Region.dlist.start post NULL) :
    ∃ m', (unlink_major r.addr t : Code ε σ Unit).run s = (.ok (), s.dropped r.addr t m') ∧
      Dropped s.memory m' pre post := by
  obtain ⟨p, n, pages, size, usage, first⟩ := t
  dsimp only at hprev hnext
  subst hprev hnext
  rcases List.eq_nil_or_concat pre with rfl | ⟨zs, z, rfl⟩
  · rw [unlink_major, whenever_neg (fun h => h rfl)]
    cases post with
    | nil =>
      rw [whenever_neg (fun h => h rfl)]
      exact ⟨_, rfl, fun zs z hz => by simp at hz, nofun, fun _ _ => rfl⟩
    | cons w ws =>
      have hw := hL.regions w (by simp)
      have hnext : Region.dlist.start (w :: ws) NULL ≠ NULL := hw.pos
      rw [whenever_pos hnext]
      refine ⟨_, rfl, fun zs z hz => by simp at hz, fun w' ws' hw' => ?_, fun x hx => ?_⟩
      · cases hw'
        exact major_same
      · exact major_outside hw.header_le fun h => hx (.next w ws rfl h)
  rw [List.concat_eq_append] at hL ⊢
  rw [Dlist.finish_concat]
  have hz := hL.regions z (by simp)
  have hprev : Region.dlist.addr z ≠ NULL := hz.pos
  rw [unlink_major, whenever_pos hprev]
  cases post with
  | nil =>
    rw [whenever_neg (fun h => h rfl)]
    refine ⟨_, rfl, fun zs' z' hz' => ?_, nofun, fun x hx => ?_⟩
    · obtain ⟨-, hz'⟩ := List.append_inj' hz' rfl
      cases hz'
      exact major_same
    · exact major_outside hz.header_le fun h => hx (.prev zs z rfl h)
  | cons w ws =>
    have hw := hL.regions w (by simp)
    have hzw : Apart z.addr 24 w.addr 24 := by
      refine hz.apart hw ?_
      exact (List.pairwise_append.mp hL.away).2.2 z (by simp) w (by simp)
    have hnext : Region.dlist.start (w :: ws) NULL ≠ NULL := hw.pos
    rw [whenever_pos hnext]
    refine ⟨_, rfl, fun zs' z' hz' => ?_, fun w' ws' hw' => ?_, fun x hx => ?_⟩
    · obtain ⟨-, hz'⟩ := List.append_inj' hz' rfl
      cases hz'
      exact (major_major hzw).trans major_same
    · cases hw'
      rw [Dlist.finish_concat]
      refine major_same.trans ?_
      rw [← major_major hzw.symm]
      rfl
    · exact (major_outside hw.header_le fun h => hx (.next w ws rfl h)).trans
        (major_outside hz.header_le fun h => hx (.prev zs z rfl h))

/-- The heap without one of its regions. -/
theorem Ok.drop (hL : Ok (pre ++ r :: post)) : Ok (pre ++ post) := by
  have hsub : (pre ++ post).Sublist (pre ++ r :: post) := (List.sublist_cons_self r post).append_left pre
  exact ⟨fun q hq => hL.regions q (hsub.mem hq), hL.away.sublist hsub⟩

/-- A byte beside is one of the header of a region that stays. -/
theorem Beside.major {x : Word} (h : Beside pre post x) : ∃ q ∈ pre ++ post, Among q.addr 24 x := by
  cases h with
  | prev zs z hz hx => exact ⟨z, by simp [hz], hx⟩
  | next w ws hw hx => exact ⟨w, by simp [hw], hx⟩

/-- No byte beside belongs to what lies behind the header of a region. -/
theorem not_beside {x : Word} (hL : Ok (pre ++ post)) (hq : q ∈ pre ++ post) (h1 : q.addr.toNat + 24 ≤ x.toNat)
    (h2 : x.toNat < q.fin) : ¬ Beside pre post x := by
  intro h
  obtain ⟨p, hp, hx⟩ := h.major
  have hpages := (hL.regions p hp).pages
  unfold Among at hx
  obtain rfl := hL.same_region hq hp (x := x) (by omega) h2 hx.1 (by unfold Region.fin; omega)
  omega

/-- The header of a region that is not next to the one that is unlinked. -/
theorem not_beside_far {x : Word} (hL : Ok (pre ++ post)) (hq : q ∈ pre ++ post)
    (hz : ∀ zs z, pre = zs ++ [z] → q.Away z) (hw : ∀ w ws, post = w :: ws → q.Away w)
    (hx : Among q.addr 24 x) : ¬ Beside pre post x := by
  have hok := hL.regions q hq
  intro h
  cases h with
  | prev zs z hpre hy => exact ((hok.apart (hL.regions z (by simp [hpre])) (hz zs z hpre)).not_among hy) hx
  | next w ws hpost hy => exact ((hok.apart (hL.regions w (by simp [hpost])) (hw w ws hpost)).not_among hy) hx

/-- No two regions have the same address. -/
theorem Ok.addr_ne (hL : Ok (pre ++ r :: post)) (hq : q ∈ pre ∨ q ∈ post) : q.addr ≠ r.addr := by
  intro heq
  have haway := hL.away_mem hq
  have h1 := (hL.regions r (by simp)).pages
  have h2 : 0 < q.pages.toNat := by
    refine (hL.regions q ?_).pages
    rcases hq with hq | hq <;> simp [hq]
  unfold Region.Away Region.fin at haway
  rw [heq] at haway
  omega

theorem bytes_allocated_drop : bytes_allocated (pre ++ post) =
    bytes_allocated (pre ++ r :: post) - (r.pages * l_pageSize).setWidth 64 := by
  simp only [bytes_allocated, List.map_append, List.map_cons, List.sum_append, List.sum_cons]
  abel

/-- **Dropping.** The memory represents the heap without the region. -/
theorem Dropped.rep {m' : Memory 32} (hdrop : Dropped s.memory m' pre post) (h : Rep s (pre ++ r :: post))
    (hempty : r.blocks = []) :
    Rep (s.dropped r.addr (Major.codec.read s.memory r.addr) m') (pre ++ post) := by
  have hL := h.ok
  have hL' := hL.drop
  have hold : ∀ q ∈ pre ++ post, q ∈ pre ++ r :: post := fun q hq => by
    simp only [List.mem_append, List.mem_cons] at hq ⊢
    tauto
  refine ⟨hL', ?_, ?_, fun q hq => ?_, fun q hq c hc => ?_, ?_, ?_, ?_⟩
  · show (if s.l_memRoot = r.addr then (Major.codec.read s.memory r.addr).next else s.l_memRoot) = _
    rw [h.major_eq, h.root]
    cases pre with
    | nil => exact if_pos rfl
    | cons q pre => exact if_neg (hL.addr_ne (.inl (by simp)))
  · refine h.majors.unlink (fun zs z hz => ?_) (fun w ws hw => ?_) (fun zs z hz c hc => ?_) fun w ws hw c hc => ?_
    · subst hz
      rw [List.append_assoc] at h
      show Major.codec.read m' z.addr = _
      rw [hdrop.prev zs z rfl, h.major_eq]
      rfl
    · subst hw
      have hsplit : pre ++ r :: w :: ws = (pre ++ [r]) ++ w :: ws := by simp
      rw [hsplit] at h
      show Major.codec.read m' w.addr = _
      rw [hdrop.next w ws rfl, h.major_eq]
      rfl
    · subst hz
      have hc' : c ∈ zs ++ [z] ++ post := by simp [hc]
      refine Major.codec.read_agree (hL'.regions c hc').header_le fun x hx => hdrop.frame x ?_
      refine not_beside_far hL' hc' (fun zs' z' hz' => ?_) (fun w ws hw => ?_) hx
      · obtain ⟨-, hz'⟩ := List.append_inj' hz' rfl
        cases hz'
        exact (List.pairwise_append.mp (List.pairwise_append.mp hL'.away).1).2.2 c hc z (by simp)
      · exact (List.pairwise_append.mp hL'.away).2.2 c (by simp [hc]) w (by simp [hw])
    · subst hw
      have hc' : c ∈ pre ++ w :: ws := by simp [hc]
      obtain ⟨-, hback, hcross⟩ := List.pairwise_append.mp hL'.away
      refine Major.codec.read_agree (hL'.regions c hc').header_le fun x hx => hdrop.frame x ?_
      refine not_beside_far hL' hc' (fun zs z hz => ?_) (fun w' ws' hw' => ?_) hx
      · exact Or.symm (hcross z (by simp [hz]) c (by simp [hc]))
      · cases hw'
        exact Or.symm ((List.pairwise_cons.mp hback).1 c hc)
  · refine (h.minors q (hold q hq)).congr fun c hc => ?_
    have hin := (hL'.regions q hq).block hc
    have h1 := hin.lo
    have h2 := hin.hi
    refine Minor.codec.read_agree hin.header_le fun x hx => hdrop.frame x ?_
    have h3 : c.addr.toNat ≤ x.toNat := hx.1
    have h4 : x.toNat < c.addr.toNat + 24 := hx.2
    exact not_beside hL' hq (by omega) (by omega)
  · have hin := (hL'.regions q hq).block hc
    have h1 := hin.lo
    have h2 := hin.hi
    have h3 := hin.mark_inside
    unfold Block.fin at h3
    exact (hdrop.frame _ (not_beside hL' hq (by omega) (by omega))).trans (h.marks q (hold q hq) c hc)
  · show (if s.l_bestBet = r.addr then NULL else s.l_bestBet) = NULL ∨
      ∃ q ∈ pre ++ post, (if s.l_bestBet = r.addr then NULL else s.l_bestBet) = q.addr
    split
    · exact .inl rfl
    · rename_i hbet
      rcases h.bestBet with hnull | ⟨q, hq, heq⟩
      · exact .inl hnull
      · refine .inr ⟨q, ?_, heq⟩
        simp only [List.mem_append, List.mem_cons] at hq ⊢
        rcases hq with hq | rfl | hq
        · exact .inl hq
        · exact absurd heq hbet
        · exact .inr hq
  · show s.l_allocated - (Major.codec.read s.memory r.addr).size.setWidth 64 = _
    rw [h.major_eq, h.allocated]
    exact bytes_allocated_drop.symm
  · show s.l_inuse = _
    rw [h.inuse]
    simp [bytes_inuse, hempty]

end

end Condor.Heap.Liballoc
