import Condor.Heap.Layout
import Mathlib.Data.BitVec
import Mathlib.Tactic.Abel

/-!
# Placing a block

`Gap r xs b ys`: between the blocks `xs` and `ys` of the region `r` there is room for
`b`. The cases 2, 3, 4.1 and 4.2 of `kmalloc` are for the four ways in which `xs` and
`ys` may be empty; after each of them the memory is as `Inserted` says, and then it
represents the heap in which `b` stands between `xs` and `ys` (`Inserted.rep`).
-/

namespace Condor.Heap.Liballoc

open Lib Lib.Prog

/-! ## Headers that are read after one was written -/

section
variable {m : Memory 32} {a b : Word} {r r' : Major} {t t' : Minor} {v : BitVec 8}

theorem major_same : Major.codec.read (Major.codec.write m a r) a = r :=
  Major.codec.read_write r (show 24 ≤ 2 ^ 32 by omega)

theorem minor_same : Minor.codec.read (Minor.codec.write m a t) a = t :=
  Minor.codec.read_write t (show 24 ≤ 2 ^ 32 by omega)

theorem major_minor (h : Apart a 24 b 24) :
    Major.codec.read (Minor.codec.write m b t) a = Major.codec.read m a :=
  Major.codec.read_write_apart Minor.codec t h

theorem minor_major (h : Apart a 24 b 24) :
    Minor.codec.read (Major.codec.write m b r) a = Minor.codec.read m a :=
  Minor.codec.read_write_apart Major.codec r h

theorem minor_minor (h : Apart a 24 b 24) :
    Minor.codec.read (Minor.codec.write m b t) a = Minor.codec.read m a :=
  Minor.codec.read_write_apart Minor.codec t h

theorem major_major (h : Apart a 24 b 24) :
    Major.codec.read (Major.codec.write m b r) a = Major.codec.read m a :=
  Major.codec.read_write_apart Major.codec r h

theorem major_update (h : a.toNat + 24 ≤ 2 ^ 32) (hb : ¬ Among a 24 b) :
    Major.codec.read (Function.update m b v) a = Major.codec.read m a := Major.codec.read_update h hb

theorem minor_update (h : a.toNat + 24 ≤ 2 ^ 32) (hb : ¬ Among a 24 b) :
    Minor.codec.read (Function.update m b v) a = Minor.codec.read m a := Minor.codec.read_update h hb

theorem major_outside (h : a.toNat + 24 ≤ 2 ^ 32) (hb : ¬ Among a 24 b) : Major.codec.write m a r b = m b :=
  Major.codec.write_outside r h hb

theorem minor_outside (h : a.toNat + 24 ≤ 2 ^ 32) (hb : ¬ Among a 24 b) : Minor.codec.write m a t b = m b :=
  Minor.codec.write_outside t h hb

end

/-! ## Gaps -/

/-- There is room for `b` between `xs` and `ys`. -/
structure Gap (r : Region) (xs : List Block) (b : Block) (ys : List Block) : Prop where
  blocks : r.blocks = xs ++ ys
  start : b.addr.toNat = Block.spans.after r.lo xs
  fits : b.fin ≤ Block.spans.before r.fin ys
  padded : b.req.toNat + 32 ≤ b.size.toNat

/-- The region with other blocks. -/
def Region.holding (r : Region) (l : List Block) : Region := { r with blocks := l }

section
variable {r : Region} {xs ys zs : List Block} {b c d z : Block} {x : Word}

theorem Gap.ok (hr : r.Ok) (h : Gap r xs b ys) : (r.holding (xs ++ b :: ys)).Ok where
  pos := hr.pos
  pages := hr.pages
  high := hr.high
  packed := by
    have hpacked := hr.packed
    rw [h.blocks] at hpacked
    exact hpacked.insert (Nat.le_of_eq h.start.symm) h.fits
  padded c hc := by
    have hpadded := hr.padded
    rw [h.blocks] at hpadded
    simp only [Region.holding, List.mem_append, List.mem_cons] at hc
    rcases hc with hc | rfl | hc
    · exact hpadded c (by simp [hc])
    · exact h.padded
    · exact hpadded c (by simp [hc])

/-- The headers of a region and of a block in it. -/
theorem Block.In.apart_major (h : b.In r) : Apart b.addr 24 r.addr 24 := by
  have h1 := h.lo
  have h2 := h.hi
  have h3 := h.high
  exact ⟨by omega, by omega, .inr (by omega)⟩

/-- The headers of two blocks. -/
theorem Block.In.apart (h : b.In r) (h' : c.In r) (hle : b.fin ≤ c.addr.toNat) :
    Apart b.addr 24 c.addr 24 := by
  have h1 := h.hi
  have h2 := h.high
  have h3 := h'.hi
  unfold Block.fin at hle
  exact ⟨by omega, by omega, .inl (by omega)⟩

theorem Block.In.mark_not_major (h : b.In r) : ¬ Among r.addr 24 b.mark := by
  have h1 := h.lo
  have h2 := h.mark_inside
  unfold Among
  omega

theorem Block.In.mark_not_self (h : b.In r) : ¬ Among b.addr 24 b.mark := by
  have h1 := h.mark_inside
  unfold Among
  omega

theorem Block.In.mark_not_before (h : b.In r) (hle : c.fin ≤ b.addr.toNat) : ¬ Among c.addr 24 b.mark := by
  have h1 := h.mark_inside
  unfold Block.fin at hle
  unfold Among
  omega

theorem Block.In.mark_not_after (h : b.In r) (hle : b.fin ≤ c.addr.toNat) : ¬ Among c.addr 24 b.mark := by
  have h1 := h.mark_inside
  unfold Among
  omega

/-- A byte in the memory of an insertion that may have changed. -/
inductive Touched (r : Region) (xs : List Block) (b : Block) (ys : List Block) (x : Word) : Prop
  | major (hx : Among r.addr 24 x)
  | minor (hx : Among b.addr 24 x)
  | mark (hx : x = b.mark)
  | prev (zs : List Block) (z : Block) (hz : xs = zs ++ [z]) (hx : Among z.addr 24 x)
  | next (w : Block) (ws : List Block) (hw : ys = w :: ws) (hx : Among w.addr 24 x)

/-- What a placement does to the memory. -/
structure Inserted (m m' : Memory 32) (r : Region) (xs : List Block) (b : Block) (ys : List Block) :
    Prop where
  minor : Minor.codec.read m' b.addr = (Block.dlist r.addr).node
    ((Block.dlist r.addr).finish NULL xs) b ((Block.dlist r.addr).start ys NULL)
  prev : ∀ zs z, xs = zs ++ [z] →
    Minor.codec.read m' z.addr = { Minor.codec.read m z.addr with next := b.addr }
  next : ∀ w ws, ys = w :: ws →
    Minor.codec.read m' w.addr = { Minor.codec.read m w.addr with prev := b.addr }
  major : Major.codec.read m' r.addr =
    { Major.codec.read m r.addr with
      usage := (Major.codec.read m r.addr).usage + (b.size + sizeof_minor)
      first := (Block.dlist r.addr).start (xs ++ b :: ys) NULL }
  mark : m' b.mark = align_mark (b.addr + sizeof_minor)
  frame : ∀ x, ¬ Touched r xs b ys x → m' x = m x

end

/-! ## The cases -/

section
variable {ε σ : Type} {s : State σ} {r : Region} {xs ys zs ws : List Block} {z w : Block}
  {new size req : Word}

/-- CASE 2. -/
theorem place_only_run (hr : r.Ok) (hgap : Gap r [] ⟨r.addr + sizeof_major, size, req⟩ []) :
    ∃ m', (place_only r.addr req size : Code ε σ Word).run s =
        (.ok (Block.payload ⟨r.addr + sizeof_major, size, req⟩),
          { s with memory := m', l_inuse := s.l_inuse + size.setWidth 64 }) ∧
      Inserted s.memory m' r [] ⟨r.addr + sizeof_major, size, req⟩ [] := by
  have hin := (hgap.ok hr).block (b := ⟨r.addr + sizeof_major, size, req⟩) (by simp [Region.holding])
  have hhr : r.addr.toNat + 24 ≤ 2 ^ 32 := hr.header_le
  have hhb : (r.addr + sizeof_major).toNat + 24 ≤ 2 ^ 32 := hin.header_le
  have hap : Apart (r.addr + sizeof_major) 24 r.addr 24 := hin.apart_major
  have hmark : ¬ Among r.addr 24 (aligned (r.addr + sizeof_major + sizeof_minor) - ALIGN_INFO) :=
    hin.mark_not_major
  have hself : ¬ Among (r.addr + sizeof_major) 24 (aligned (r.addr + sizeof_major + sizeof_minor) - ALIGN_INFO) :=
    hin.mark_not_self
  refine ⟨_, rfl, ?_, fun zs z hz => by simp at hz, nofun, ?_, ?_, ?_⟩
  · simp only [minor_update hhb hself, minor_major hap, minor_same]
    rfl
  · simp only [major_update hhr hmark, major_same, major_minor hap.symm]
    rfl
  · exact Function.update_self ..
  · intro x hx
    refine (Function.update_of_ne (fun h => hx (.mark h)) ..).trans ?_
    dsimp only
    rw [major_outside hhr fun h => hx (.major h), minor_outside hhb fun h => hx (.minor h),
      major_outside hhr fun h => hx (.major h)]

/-- CASE 3. -/
theorem place_first_run (hr : r.Ok) (hgap : Gap r [] ⟨r.addr + sizeof_major, size, req⟩ (w :: ws)) :
    ∃ m', (place_first r.addr w.addr req size : Code ε σ Word).run s =
        (.ok (Block.payload ⟨r.addr + sizeof_major, size, req⟩),
          { s with memory := m', l_inuse := s.l_inuse + size.setWidth 64 }) ∧
      Inserted s.memory m' r [] ⟨r.addr + sizeof_major, size, req⟩ (w :: ws) := by
  have hok := hgap.ok hr
  have hin := hok.block (b := ⟨r.addr + sizeof_major, size, req⟩) (by simp [Region.holding])
  have hw := hok.block (b := w) (by simp [Region.holding])
  have hle : (Block.mk (r.addr + sizeof_major) size req).fin ≤ w.addr.toNat := hgap.fits
  have hhr : r.addr.toNat + 24 ≤ 2 ^ 32 := hr.header_le
  have hhb : (r.addr + sizeof_major).toNat + 24 ≤ 2 ^ 32 := hin.header_le
  have hhw : w.addr.toNat + 24 ≤ 2 ^ 32 := hw.header_le
  have hap : Apart (r.addr + sizeof_major) 24 r.addr 24 := hin.apart_major
  have hwr : Apart w.addr 24 r.addr 24 := hw.apart_major
  have hbw : Apart (r.addr + sizeof_major) 24 w.addr 24 := hin.apart hw hle
  have hmark : ¬ Among r.addr 24 (aligned (r.addr + sizeof_major + sizeof_minor) - ALIGN_INFO) :=
    hin.mark_not_major
  have hself : ¬ Among (r.addr + sizeof_major) 24 (aligned (r.addr + sizeof_major + sizeof_minor) - ALIGN_INFO) :=
    hin.mark_not_self
  have hnext : ¬ Among w.addr 24 (aligned (r.addr + sizeof_major + sizeof_minor) - ALIGN_INFO) :=
    hin.mark_not_after hle
  refine ⟨_, rfl, ?_, fun zs z hz => by simp at hz, fun w' ws' hw' => ?_, ?_, ?_, ?_⟩
  · simp only [minor_update hhb hself, minor_major hap, minor_same]
    rfl
  · cases hw'
    simp only [minor_update hhw hnext, minor_major hwr, minor_minor hbw.symm, minor_same]
  · simp only [major_update hhr hmark, major_same, major_minor hap.symm, major_minor hwr.symm]
    rfl
  · exact Function.update_self ..
  · intro x hx
    refine (Function.update_of_ne (fun h => hx (.mark h)) ..).trans ?_
    dsimp only
    rw [major_outside hhr fun h => hx (.major h), minor_outside hhb fun h => hx (.minor h),
      major_outside hhr fun h => hx (.major h), minor_outside hhb fun h => hx (.minor h),
      minor_outside hhw fun h => hx (.next w ws rfl h)]

/-- CASE 4.1. -/
theorem place_last_run (hr : r.Ok) (hgap : Gap r (zs ++ [z]) ⟨new, size, req⟩ [])
    (hfirst : (Major.codec.read s.memory r.addr).first = r.first) :
    ∃ m', (place_last r.addr z.addr new req size : Code ε σ Word).run s =
        (.ok (Block.payload ⟨new, size, req⟩),
          { s with memory := m', l_inuse := s.l_inuse + size.setWidth 64 }) ∧
      Inserted s.memory m' r (zs ++ [z]) ⟨new, size, req⟩ [] := by
  have hok := hgap.ok hr
  have hin := hok.block (b := ⟨new, size, req⟩) (by simp [Region.holding])
  have hz := hok.block (b := z) (by simp [Region.holding])
  have hle : z.fin ≤ new.toNat := hok.packed.le_of_front (by simp)
  have hhr : r.addr.toNat + 24 ≤ 2 ^ 32 := hr.header_le
  have hhb : new.toNat + 24 ≤ 2 ^ 32 := hin.header_le
  have hhz : z.addr.toNat + 24 ≤ 2 ^ 32 := hz.header_le
  have hap : Apart new 24 r.addr 24 := hin.apart_major
  have hzr : Apart z.addr 24 r.addr 24 := hz.apart_major
  have hzb : Apart z.addr 24 new 24 := hz.apart hin hle
  have hmark : ¬ Among r.addr 24 (aligned (new + sizeof_minor) - ALIGN_INFO) := hin.mark_not_major
  have hself : ¬ Among new 24 (aligned (new + sizeof_minor) - ALIGN_INFO) := hin.mark_not_self
  have hprev : ¬ Among z.addr 24 (aligned (new + sizeof_minor) - ALIGN_INFO) := hin.mark_not_before hle
  refine ⟨_, rfl, ?_, fun zs' z' hz' => ?_, nofun, ?_, ?_, ?_⟩
  · simp only [minor_update hhb hself, minor_major hap, minor_same, Dlist.finish_concat]
    rfl
  · obtain ⟨-, hz'⟩ := List.append_inj' hz' rfl
    cases hz'
    simp only [minor_update hhz hprev, minor_major hzr, minor_minor hzb, minor_same]
  · simp only [major_update hhr hmark, major_same, major_minor hap.symm, major_minor hzr.symm]
    rw [hfirst, Region.first, hgap.blocks, List.append_nil, Dlist.start_append, Dlist.start_append]
    cases zs <;> rfl
  · exact Function.update_self ..
  · intro x hx
    refine (Function.update_of_ne (fun h => hx (.mark h)) ..).trans ?_
    dsimp only
    rw [major_outside hhr fun h => hx (.major h), minor_outside hhb fun h => hx (.minor h),
      minor_outside hhz fun h => hx (.prev zs z rfl h)]

/-- CASE 4.2. -/
theorem place_between_run (hr : r.Ok) (hgap : Gap r (zs ++ [z]) ⟨new, size, req⟩ (w :: ws))
    (hfirst : (Major.codec.read s.memory r.addr).first = r.first) :
    ∃ m', (place_between r.addr z.addr w.addr new req size : Code ε σ Word).run s =
        (.ok (Block.payload ⟨new, size, req⟩),
          { s with memory := m', l_inuse := s.l_inuse + size.setWidth 64 }) ∧
      Inserted s.memory m' r (zs ++ [z]) ⟨new, size, req⟩ (w :: ws) := by
  have hok := hgap.ok hr
  have hin := hok.block (b := ⟨new, size, req⟩) (by simp [Region.holding])
  have hz := hok.block (b := z) (by simp [Region.holding])
  have hw := hok.block (b := w) (by simp [Region.holding])
  have hle : z.fin ≤ new.toNat := hok.packed.le_of_front (by simp)
  have hle' : (Block.mk new size req).fin ≤ w.addr.toNat := hgap.fits
  have hzw : z.fin ≤ w.addr.toNat := hle.trans ((Block.spans.le ⟨new, size, req⟩).trans hle')
  have hhr : r.addr.toNat + 24 ≤ 2 ^ 32 := hr.header_le
  have hhb : new.toNat + 24 ≤ 2 ^ 32 := hin.header_le
  have hhz : z.addr.toNat + 24 ≤ 2 ^ 32 := hz.header_le
  have hhw : w.addr.toNat + 24 ≤ 2 ^ 32 := hw.header_le
  have hap : Apart new 24 r.addr 24 := hin.apart_major
  have hzr : Apart z.addr 24 r.addr 24 := hz.apart_major
  have hwr : Apart w.addr 24 r.addr 24 := hw.apart_major
  have hzb : Apart z.addr 24 new 24 := hz.apart hin hle
  have hbw : Apart new 24 w.addr 24 := hin.apart hw hle'
  have hzwa : Apart z.addr 24 w.addr 24 := hz.apart hw hzw
  have hmark : ¬ Among r.addr 24 (aligned (new + sizeof_minor) - ALIGN_INFO) := hin.mark_not_major
  have hself : ¬ Among new 24 (aligned (new + sizeof_minor) - ALIGN_INFO) := hin.mark_not_self
  have hprev : ¬ Among z.addr 24 (aligned (new + sizeof_minor) - ALIGN_INFO) := hin.mark_not_before hle
  have hnext : ¬ Among w.addr 24 (aligned (new + sizeof_minor) - ALIGN_INFO) := hin.mark_not_after hle'
  refine ⟨_, rfl, ?_, fun zs' z' hz' => ?_, fun w' ws' hw' => ?_, ?_, ?_, ?_⟩
  · simp only [minor_update hhb hself, minor_major hap, minor_minor hzb.symm, minor_minor hbw, minor_same,
      Dlist.finish_concat]
    rfl
  · obtain ⟨-, hz'⟩ := List.append_inj' hz' rfl
    cases hz'
    simp only [minor_update hhz hprev, minor_major hzr, minor_minor hzb, minor_minor hzwa, minor_same]
  · cases hw'
    simp only [minor_update hhw hnext, minor_major hwr, minor_minor hzwa.symm, minor_minor hbw.symm, minor_same]
  · simp only [major_update hhr hmark, major_same, major_minor hap.symm, major_minor hzr.symm,
      major_minor hwr.symm]
    rw [hfirst, Region.first, hgap.blocks, Dlist.start_append, Dlist.start_append]
    cases zs <;> rfl
  · exact Function.update_self ..
  · intro x hx
    refine (Function.update_of_ne (fun h => hx (.mark h)) ..).trans ?_
    dsimp only
    rw [major_outside hhr fun h => hx (.major h), minor_outside hhz fun h => hx (.prev zs z rfl h),
      minor_outside hhw fun h => hx (.next w ws rfl h), minor_outside hhb fun h => hx (.minor h)]

end

/-! ## The heap after an insertion -/

section
variable {r q : Region} {xs ys zs ws : List Block} {b c z w : Block} {x : Word} {L pre post : List Region}

/-- Whatever an insertion touches lies in its region. -/
theorem Touched.home (hok : (r.holding (xs ++ b :: ys)).Ok) (h : Touched r xs b ys x) :
    r.addr.toNat ≤ x.toNat ∧ x.toNat < r.fin := by
  have hblock : ∀ c ∈ xs ++ b :: ys, Among c.addr 24 x → r.addr.toNat ≤ x.toNat ∧ x.toNat < r.fin := by
    intro c hc hx
    have hin := hok.block hc
    have h1 := hin.lo
    have h2 := hin.hi
    change _ ≤ r.fin at h2
    change r.addr.toNat + 24 ≤ _ at h1
    unfold Among at hx
    omega
  cases h with
  | major hx =>
    have hpages : 0 < r.pages.toNat := hok.pages
    unfold Among at hx
    unfold Region.fin
    omega
  | minor hx => exact hblock b (by simp) hx
  | mark hx =>
    have hin := hok.block (b := b) (by simp [Region.holding])
    have h1 := hin.lo
    have h2 := hin.hi
    have h3 := hin.mark_inside
    change _ ≤ r.fin at h2
    change r.addr.toNat + 24 ≤ _ at h1
    unfold Block.fin at h3
    subst hx
    omega
  | prev zs z hz hx => exact hblock z (by simp [hz]) hx
  | next w ws hw hx => exact hblock w (by simp [hw]) hx

/-- No insertion touches the header of a block that is not next to the gap. -/
theorem not_touched_far (hok : (r.holding (xs ++ b :: ys)).Ok) (hc : c ∈ xs ++ ys)
    (hz : ∀ zs z, xs = zs ++ [z] → c.fin ≤ z.addr.toNat ∨ z.fin ≤ c.addr.toNat)
    (hw : ∀ w ws, ys = w :: ws → c.fin ≤ w.addr.toNat ∨ w.fin ≤ c.addr.toNat) (hx : Among c.addr 24 x) :
    ¬ Touched r xs b ys x := by
  have hmem : c ∈ xs ++ b :: ys := by
    simp only [List.mem_append, List.mem_cons] at hc ⊢
    tauto
  have hin := hok.block hmem
  have hbin := hok.block (b := b) (by simp [Region.holding])
  have hside : c.fin ≤ b.addr.toNat ∨ b.fin ≤ c.addr.toNat := by
    rcases List.mem_append.mp hc with hc | hc
    · exact .inl (hok.packed.le_of_front hc)
    · exact .inr (hok.packed.le_of_back hc)
  have hlo := hin.lo
  change r.addr.toNat + 24 ≤ _ at hlo
  unfold Among at hx
  unfold Block.fin at hside hz hw
  intro htouched
  cases htouched with
  | major hy =>
    unfold Among at hy
    omega
  | minor hy =>
    unfold Among at hy
    omega
  | mark hy =>
    have hmark := hbin.mark_inside
    unfold Block.fin at hmark
    subst hy
    omega
  | prev zs z hxs hy =>
    have := hz zs z hxs
    unfold Among at hy
    omega
  | next w ws hys hy =>
    have := hw w ws hys
    unfold Among at hy
    omega

/-- No insertion touches the mark of another block. -/
theorem not_touched_mark (hok : (r.holding (xs ++ b :: ys)).Ok) (hc : c ∈ xs ++ ys) :
    ¬ Touched r xs b ys c.mark := by
  have hmem : c ∈ xs ++ b :: ys := by
    simp only [List.mem_append, List.mem_cons] at hc ⊢
    tauto
  have hin := hok.block hmem
  have hbin := hok.block (b := b) (by simp [Region.holding])
  have hside : c.fin ≤ b.addr.toNat ∨ b.fin ≤ c.addr.toNat := by
    rcases List.mem_append.mp hc with hc | hc
    · exact .inl (hok.packed.le_of_front hc)
    · exact .inr (hok.packed.le_of_back hc)
  have hlo := hin.lo
  have hmark := hin.mark_inside
  change r.addr.toNat + 24 ≤ _ at hlo
  unfold Block.fin at hside hmark
  have hheader : ∀ d ∈ xs ++ b :: ys, ¬ Among d.addr 24 c.mark := by
    intro d hd hy
    unfold Among at hy
    rcases hok.blocks_apart hmem hd with rfl | h | h
    · omega
    · unfold Block.fin at h
      omega
    · unfold Block.fin at h
      omega
  intro htouched
  cases htouched with
  | major hy =>
    unfold Among at hy
    omega
  | minor hy => exact hheader b (by simp) hy
  | mark hy =>
    have hbmark := hbin.mark_inside
    unfold Block.fin at hbmark
    rw [hy] at hmark
    omega
  | prev zs z hxs hy => exact hheader z (by simp [hxs]) hy
  | next w ws hys hy => exact hheader w (by simp [hys]) hy

/-- The headers in front of the last one before the gap are as they were. -/
theorem front_kept {m m' : Memory 32} (hok : (r.holding (xs ++ b :: ys)).Ok)
    (hframe : ∀ x, ¬ Touched r xs b ys x → m' x = m x) :
    ∀ zs z, xs = zs ++ [z] → ∀ c ∈ zs, Minor.codec.read m' c.addr = Minor.codec.read m c.addr := by
  intro zs z hz c hc
  subst hz
  have hpacked := hok.packed
  change Block.spans.Packed r.lo r.fin (zs ++ [z] ++ b :: ys) at hpacked
  have hcb : c.fin ≤ b.addr.toNat := hpacked.le_of_front (by simp [hc])
  refine Minor.codec.read_agree (hok.block (b := c) (by simp [Region.holding, hc])).header_le fun x hx =>
    hframe x (not_touched_far hok (by simp [hc]) (fun zs' z' hz' => ?_) (fun w ws hw => ?_) hx)
  · obtain ⟨-, hz'⟩ := List.append_inj' hz' rfl
    cases hz'
    exact .inl (hpacked.left.le_of_front hc)
  · subst hw
    exact .inl (hpacked.erase.le_of_front (by simp [hc]))

/-- The headers behind the first one after the gap are as they were. -/
theorem back_kept {m m' : Memory 32} (hok : (r.holding (xs ++ b :: ys)).Ok)
    (hframe : ∀ x, ¬ Touched r xs b ys x → m' x = m x) :
    ∀ w ws, ys = w :: ws → ∀ c ∈ ws, Minor.codec.read m' c.addr = Minor.codec.read m c.addr := by
  intro w ws hw c hc
  subst hw
  have hpacked := hok.packed
  change Block.spans.Packed r.lo r.fin (xs ++ b :: w :: ws) at hpacked
  refine Minor.codec.read_agree (hok.block (b := c) (by simp [Region.holding, hc])).header_le fun x hx =>
    hframe x (not_touched_far hok (by simp [hc]) (fun zs z hz => ?_) (fun w' ws' hw' => ?_) hx)
  · subst hz
    rw [List.append_assoc] at hpacked
    exact .inr (hpacked.le_of_back (by simp [hc]))
  · cases hw'
    exact .inr (hpacked.erase.le_of_back hc)

/-- Another region of the heap. -/
theorem Ok.away_mem (hL : Ok (pre ++ r :: post)) (hq : q ∈ pre ∨ q ∈ post) : r.Away q := by
  obtain ⟨-, hpost, hpre⟩ := List.pairwise_append.mp hL.away
  rcases hq with hq | hq
  · exact Or.symm (hpre q hq r (by simp))
  · exact (List.pairwise_cons.mp hpost).1 q hq

/-- Other blocks in the same region. -/
theorem Ok.holding {l : List Block} (hL : Ok (pre ++ r :: post)) (hr : (r.holding l).Ok) :
    Ok (pre ++ r.holding l :: post) where
  regions q hq := by
    simp only [List.mem_append, List.mem_cons] at hq
    rcases hq with hq | rfl | hq
    · exact hL.regions q (by simp [hq])
    · exact hr
    · exact hL.regions q (by simp [hq])
  away := by
    obtain ⟨hpre, hpost, hcross⟩ := List.pairwise_append.mp hL.away
    obtain ⟨hr', hpost⟩ := List.pairwise_cons.mp hpost
    refine List.pairwise_append.mpr ⟨hpre, List.pairwise_cons.mpr ⟨hr', hpost⟩, fun q hq p hp => ?_⟩
    rcases List.mem_cons.mp hp with rfl | hp
    · exact hcross q hq r (by simp)
    · exact hcross q hq p (by simp [hp])

/-- The start of a heap does not depend on the blocks. -/
theorem start_holding {l : List Block} {next : Word} :
    Region.dlist.start (pre ++ r.holding l :: post) next = Region.dlist.start (pre ++ r :: post) next := by
  cases pre <;> rfl

theorem allocated_holding {l : List Block} :
    bytes_allocated (pre ++ r.holding l :: post) = bytes_allocated (pre ++ r :: post) := by
  simp [bytes_allocated, Region.holding]

theorem inuse_insert (hblocks : r.blocks = xs ++ ys) :
    bytes_inuse (pre ++ r.holding (xs ++ b :: ys) :: post) = bytes_inuse (pre ++ r :: post) + b.size.setWidth 64 := by
  simp only [bytes_inuse, Region.holding, hblocks, List.flatMap_append, List.flatMap_cons, List.map_append,
    List.map_cons, List.sum_append, List.sum_cons]
  abel

/-- The rest of the heap when only one region changes. -/
theorem Rep.update_region {σ : Type} {s s' : State σ} {l : List Block} (h : Rep s (pre ++ r :: post))
    (hok : (r.holding l).Ok)
    (hmajor : Major.codec.read s'.memory r.addr =
      { Major.codec.read s.memory r.addr with
        usage := BitVec.ofNat 32 (r.holding l).used, first := (r.holding l).first })
    (hminors : (Block.dlist r.addr).Linked (Minor.codec.read s'.memory) NULL l NULL)
    (hmarks : ∀ c ∈ l, s'.memory c.mark = align_mark (c.addr + sizeof_minor))
    (hframe : ∀ x : Word, ¬ (r.addr.toNat ≤ x.toNat ∧ x.toNat < r.fin) → s'.memory x = s.memory x)
    (hroot : s'.l_memRoot = s.l_memRoot) (hbest : s'.l_bestBet = s.l_bestBet)
    (halloc : s'.l_allocated = s.l_allocated) (hinuse : s'.l_inuse = bytes_inuse (pre ++ r.holding l :: post)) :
    Rep s' (pre ++ r.holding l :: post) := by
  have hmem : ∀ q, q ∈ pre ∨ q ∈ post → q ∈ pre ++ r :: post := by
    intro q hq
    rcases hq with hq | hq <;> simp [hq]
  -- bytes of another region
  have hother : ∀ q, q ∈ pre ∨ q ∈ post → ∀ x : Word, q.addr.toNat ≤ x.toNat → x.toNat < q.fin →
      s'.memory x = s.memory x := by
    intro q hq x h1 h2
    refine hframe x fun hx => ?_
    have haway := h.ok.away_mem hq
    unfold Region.Away at haway
    omega
  have hcases : ∀ q ∈ pre ++ r.holding l :: post, q = r.holding l ∨ q ∈ pre ∨ q ∈ post := by
    intro q hq
    simp only [List.mem_append, List.mem_cons] at hq
    tauto
  refine ⟨h.ok.holding hok, ?_, ?_, fun q hq => ?_, fun q hq c hc => ?_, ?_, ?_, hinuse⟩
  · rw [hroot, h.root, start_holding]
  · refine h.majors.replace (b := r.holding l) rfl ?_ fun q hq => ?_
    · show Major.codec.read s'.memory r.addr = _
      rw [hmajor, h.major_eq]
      rfl
    · have hqok := h.ok.regions q (hmem q hq)
      have hpages := hqok.pages
      refine Major.codec.read_agree hqok.header_le fun x hx => hother q hq x hx.1 ?_
      have h24 : x.toNat < q.addr.toNat + 24 := hx.2
      unfold Region.fin
      omega
  · rcases hcases q hq with rfl | hq
    · exact hminors
    · refine (h.minors q (hmem q hq)).congr fun c hc => ?_
      have hin := (h.ok.regions q (hmem q hq)).block hc
      have h1 := hin.lo
      have h2 := hin.hi
      refine Minor.codec.read_agree hin.header_le fun x hx => hother q hq x ?_ ?_
      · have hlo : c.addr.toNat ≤ x.toNat := hx.1
        omega
      · have hhi : x.toNat < c.addr.toNat + 24 := hx.2
        omega
  · rcases hcases q hq with rfl | hq
    · exact hmarks c hc
    · have hin := (h.ok.regions q (hmem q hq)).block hc
      have h1 := hin.lo
      have h2 := hin.hi
      have h3 := hin.mark_inside
      unfold Block.fin at h3
      rw [hother q hq c.mark (by omega) (by omega)]
      exact h.marks q (hmem q hq) c hc
  · rw [hbest]
    rcases h.bestBet with hnull | ⟨q, hq, hbet⟩
    · exact .inl hnull
    · simp only [List.mem_append, List.mem_cons] at hq
      rcases hq with hq | rfl | hq
      · exact .inr ⟨q, by simp [hq], hbet⟩
      · exact .inr ⟨q.holding l, by simp, hbet⟩
      · exact .inr ⟨q, by simp [hq], hbet⟩
  · rw [halloc, h.allocated, allocated_holding]

/-- **Insertion.** The memory after a placement represents the heap with the new block. -/
theorem Inserted.rep {σ : Type} {s : State σ} {m' : Memory 32} (hins : Inserted s.memory m' r xs b ys)
    (h : Rep s (pre ++ r :: post)) (hgap : Gap r xs b ys) :
    Rep { s with memory := m', l_inuse := s.l_inuse + b.size.setWidth 64 }
      (pre ++ r.holding (xs ++ b :: ys) :: post) := by
  have hr : r.Ok := h.ok.regions r (by simp)
  have hok := hgap.ok hr
  have hlinked := h.minors r (by simp)
  rw [hgap.blocks] at hlinked
  have hfront := front_kept hok hins.frame
  have hback := back_kept hok hins.frame
  refine h.update_region hok ?_ ?_ ?_ ?_ rfl rfl rfl ?_
  · have husage : (Major.codec.read s.memory r.addr).usage + (b.size + sizeof_minor) =
        BitVec.ofNat 32 (r.holding (xs ++ b :: ys)).used := by
      have hspan : Block.spans.fin b - Block.spans.start b = 24 + b.size.toNat := by
        show b.addr.toNat + 24 + b.size.toNat - b.addr.toNat = _
        omega
      have hused : (r.holding (xs ++ b :: ys)).used = r.used + (b.size.toNat + 24) := by
        unfold Region.used Region.holding
        rw [hgap.blocks, Spans.total_append, Spans.total_append, Spans.total, hspan]
        omega
      rw [hused, BitVec.ofNat_add, BitVec.ofNat_add, BitVec.ofNat_toNat, BitVec.setWidth_eq, h.major_eq]
      rfl
    rw [hins.major, husage]
    rfl
  · refine hlinked.insert hins.minor ?_ ?_ ?_ ?_
    · intro zs z hz
      show Minor.codec.read m' z.addr = _
      rw [hins.prev zs z hz, h.minor_eq (by simp) (hgap.blocks.trans (by rw [hz, List.append_assoc]; rfl))]
      rfl
    · intro w ws hw
      show Minor.codec.read m' w.addr = _
      rw [hins.next w ws hw, h.minor_eq (by simp) (hgap.blocks.trans (by rw [hw]))]
      rfl
    · exact hfront
    · exact hback
  · intro c hc
    simp only [List.mem_append, List.mem_cons] at hc
    have hother : c ∈ xs ++ ys → m' c.mark = align_mark (c.addr + sizeof_minor) := by
      intro hc
      rw [hins.frame _ (not_touched_mark hok hc)]
      exact h.marks r (by simp) c (by rwa [hgap.blocks])
    rcases hc with hc | rfl | hc
    · exact hother (by simp [hc])
    · exact hins.mark
    · exact hother (by simp [hc])
  · intro x hx
    exact hins.frame x fun ht => hx (ht.home hok)
  · show s.l_inuse + _ = _
    rw [h.inuse, inuse_insert hgap.blocks]

/-- Whatever an insertion touches is the allocator's afterwards. -/
theorem Touched.own (h : Touched r xs b ys x) : Own (pre ++ r.holding (xs ++ b :: ys) :: post) x := by
  have hmem : r.holding (xs ++ b :: ys) ∈ pre ++ r.holding (xs ++ b :: ys) :: post := by simp
  cases h with
  | major hx => exact .major _ hmem hx
  | minor hx => exact .minor _ hmem b (by simp [Region.holding]) hx
  | mark hx => exact .mark _ hmem b (by simp [Region.holding]) hx
  | prev zs z hz hx => exact .minor _ hmem z (by simp [Region.holding, hz]) hx
  | next w ws hw hx => exact .minor _ hmem w (by simp [Region.holding, hw]) hx

end

end Condor.Heap.Liballoc
