import Condor.Heap.Removing

/-!
# New majors

`Hooks.Sound H I` is what the allocator relies on: `I` relates the state of the hooks
to the chunks that they have given, which lie below 4 GiB and apart; no hook changes a
byte of a chunk that is given before and after the call. `Good I s L` is a state that
represents `L` and whose hooks have given the regions of `L` and no others.

`allocate_new_page` asks for at least 16 pages, and for enough for the request and both
headers (`page_count_le`). A new major is linked behind the last one, or is the first.
-/

namespace Condor.Heap.Liballoc

open Lib Lib.Prog

/-! ## The hooks -/

/-- A chunk that a hook gave. -/
structure Pages where
  addr : Word
  count : Word
  deriving DecidableEq, Repr

namespace Pages

def fin (p : Pages) : Nat := p.addr.toNat + 4096 * p.count.toNat

def Has (p : Pages) (x : Word) : Prop := p.addr.toNat ≤ x.toNat ∧ x.toNat < p.fin

def Away (p q : Pages) : Prop := p.fin ≤ q.addr.toNat ∨ q.fin ≤ p.addr.toNat

end Pages

def Region.given (r : Region) : Pages := ⟨r.addr, r.pages⟩

section
variable {ε σ : Type}

structure Hooks.Sound (H : Hooks ε σ) (I : σ → List Pages → Prop) : Prop where
  pos : ∀ t live, I t live → ∀ p ∈ live, p.addr ≠ NULL
  high : ∀ t live, I t live → ∀ p ∈ live, p.fin ≤ 2 ^ 32
  away : ∀ t live, I t live → live.Pairwise Pages.Away
  alloc : ∀ t live n m a t' m', I t live → H.liballoc_alloc n (t, m) = .ok (a, t', m') →
    (∀ p ∈ live, ∀ x, p.Has x → m' x = m x) ∧
      (a = NULL ∧ I t' live ∨ a ≠ NULL ∧ I t' (⟨a, n⟩ :: live))
  free : ∀ t live p m a t' m', I t live → p ∈ live → H.liballoc_free p.addr p.count (t, m) = .ok (a, t', m') →
    (∀ q ∈ live.erase p, ∀ x, q.Has x → m' x = m x) ∧ I t' (live.erase p)

/-- The hooks have given the regions. -/
def Given (I : σ → List Pages → Prop) (t : σ) (L : List Region) : Prop :=
  ∃ live, I t live ∧ live.Perm (L.map Region.given)

/-- A state of the allocator between two calls. -/
structure Good (I : σ → List Pages → Prop) (s : State σ) (L : List Region) : Prop where
  rep : Rep s L
  given : Given I s.pages L

theorem Good.lock {I : σ → List Pages → Prop} {s : State σ} {L : List Region} {f : Hal.Flags} (h : Good I s L) :
    Good I { s with flags := f } L :=
  ⟨h.rep.agree (fun _ _ => rfl) rfl rfl rfl rfl, h.given⟩

/-- The bytes of the regions are as they were. -/
def Kept (L : List Region) (m m' : Memory 32) : Prop := ∀ r ∈ L, ∀ x, r.given.Has x → m' x = m x

/-- All blocks of a heap. -/
def blocks (L : List Region) : List Block := L.flatMap Region.blocks

/-- No region is empty. -/
def Tidy (L : List Region) : Prop := ∀ r ∈ L, r.blocks ≠ []

/-- The payloads of the blocks are as they were. -/
def PayloadsKept (bs : List Block) (m m' : Memory 32) : Prop := ∀ b ∈ bs, ∀ x, b.Payload x → m' x = m x

theorem mem_blocks {L : List Region} {b : Block} : b ∈ blocks L ↔ ∃ r ∈ L, b ∈ r.blocks := List.mem_flatMap

theorem PayloadsKept.refl {bs : List Block} {m : Memory 32} : PayloadsKept bs m m := fun _ _ _ _ => rfl

theorem PayloadsKept.mono {bs cs : List Block} {m m' : Memory 32} (h : PayloadsKept cs m m')
    (hsub : ∀ b ∈ bs, b ∈ cs) : PayloadsKept bs m m' := fun b hb => h b (hsub b hb)

theorem PayloadsKept.trans {bs cs : List Block} {m m' m'' : Memory 32} (h : PayloadsKept bs m m')
    (h' : PayloadsKept cs m' m'') (hsub : ∀ b ∈ bs, b ∈ cs) : PayloadsKept bs m m'' :=
  fun b hb x hx => (h' b (hsub b hb) x hx).trans (h b hb x hx)

/-- No block comes twice. -/
theorem Ok.nodup {L : List Region} (hL : Ok L) : (blocks L).Nodup := by
  refine List.nodup_flatMap.mpr ⟨fun r hr => ?_, hL.away.imp_of_mem fun {r q} hr hq haway b hb hc => ?_⟩
  · refine (hL.regions r hr).packed.ordered.imp fun {b c} hle heq => ?_
    subst heq
    have hle' : b.addr.toNat + 24 + b.size.toNat ≤ b.addr.toNat := hle
    omega
  · have hbr := (hL.regions r hr).block hb
    have hbq := (hL.regions q hq).block hc
    have h1 := hbr.lo
    have h2 := hbr.hi
    have h3 := hbq.lo
    have h4 := hbq.hi
    unfold Region.Away at haway
    omega

/-- The blocks that are left when one is taken out of its region. -/
theorem Ok.mem_blocks_holding {pre post : List Region} {r : Region} {xs ys : List Block} {b c : Block}
    (hL : Ok (pre ++ r :: post)) (hblocks : r.blocks = xs ++ b :: ys) :
    c ∈ blocks (pre ++ r.holding (xs ++ ys) :: post) ↔ c ∈ blocks (pre ++ r :: post) ∧ c ≠ b := by
  have hnodup := hL.nodup
  have hall : blocks (pre ++ r :: post) = (blocks pre ++ xs) ++ b :: (ys ++ blocks post) := by
    simp [blocks, hblocks]
  have hleft : blocks (pre ++ r.holding (xs ++ ys) :: post) = (blocks pre ++ xs) ++ (ys ++ blocks post) := by
    simp [blocks, Region.holding]
  rw [hall, List.nodup_middle, List.nodup_cons] at hnodup
  rw [hall, hleft]
  constructor
  · intro hc
    refine ⟨?_, fun heq => hnodup.1 (heq ▸ hc)⟩
    simp only [List.mem_append, List.mem_cons] at hc ⊢
    tauto
  · simp only [List.mem_append, List.mem_cons]
    tauto

/-- A payload lies in its region. -/
theorem Ok.payload_home {L : List Region} {r : Region} {b : Block} {x : Word} (hL : Ok L) (hr : r ∈ L)
    (hb : b ∈ r.blocks) (hx : b.Payload x) : r.addr.toNat + 24 ≤ x.toNat ∧ r.given.Has x := by
  have hin := (hL.regions r hr).block hb
  obtain ⟨h1, -, h2⟩ := hin.payload_inside
  have h3 := hin.lo
  have h4 := hin.hi
  unfold Block.Payload Among at hx
  unfold Block.fin at h2
  refine ⟨by omega, ?_, ?_⟩
  · show r.addr.toNat ≤ _
    omega
  · show _ < r.fin
    omega

theorem Kept.payloads {L : List Region} {m m' : Memory 32} (h : Kept L m m') (hL : Ok L) :
    PayloadsKept (blocks L) m m' := by
  intro b hb x hx
  obtain ⟨r, hr, hb⟩ := mem_blocks.mp hb
  exact h r hr x (hL.payload_home hr hb hx).2

theorem Kept.trans {L : List Region} {m m' m'' : Memory 32} (h : Kept L m m') (h' : Kept L m' m'') :
    Kept L m m'' := fun r hr x hx => (h' r hr x hx).trans (h r hr x hx)

end

/-! ## The number of pages -/

theorem toNat_whole_pages (st : Word) : (whole_pages st).toNat = (st.toNat + 4095) / 4096 := by
  have hst := st.isLt
  have hmod : st % l_pageSize = 0 ↔ st.toNat % 4096 = 0 := by
    rw [← BitVec.toNat_inj, BitVec.toNat_umod]
    rfl
  have hdiv : (st / l_pageSize).toNat = st.toNat / 4096 := by
    rw [BitVec.toNat_udiv]
    rfl
  unfold whole_pages
  split
  · rename_i hzero
    rw [hmod] at hzero
    omega
  · rename_i hzero
    rw [hmod] at hzero
    rw [BitVec.toNat_add, hdiv, show (1 : Word).toNat = 1 from rfl]
    omega

theorem toNat_page_count {size : Word} (h : size.toNat + 48 < 2 ^ 32) :
    (page_count size).toNat = max 16 ((size.toNat + 48 + 4095) / 4096) := by
  have hst : (size + sizeof_major + sizeof_minor).toNat = size.toNat + 48 := by
    rw [BitVec.toNat_add, BitVec.toNat_add, toNat_sizeof_major, toNat_sizeof_minor]
    omega
  have hwhole := toNat_whole_pages (size + sizeof_major + sizeof_minor)
  rw [hst] at hwhole
  have hlt := BitVec.lt_def (x := whole_pages (size + sizeof_major + sizeof_minor)) (y := l_pageCount)
  rw [hwhole, show l_pageCount.toNat = 16 from rfl] at hlt
  unfold page_count
  dsimp only
  split
  · rename_i hsmall
    have := hlt.mp hsmall
    rw [show l_pageCount.toNat = 16 from rfl]
    omega
  · rename_i hbig
    have := mt hlt.mpr hbig
    omega

/-- The pages hold the request and both headers. -/
theorem page_count_le {size : Word} (h : size.toNat + 48 < 2 ^ 32) :
    size.toNat + 48 ≤ 4096 * (page_count size).toNat ∧ 16 ≤ (page_count size).toNat := by
  rw [toNat_page_count h]
  omega

/-! ## Allocating -/

/-- A region that has no blocks yet. -/
def Region.bare (addr pages : Word) : Region := ⟨addr, pages, []⟩

section
variable {ε σ : Type} {H : Hooks ε σ} {I : σ → List Pages → Prop} {s s' : State σ} {t : σ} {L : List Region}
  {r z : Region} {pre zs : List Region} {a n size : Word} {m m' : Memory 32}

/-- The chunks given are regions that share no byte. -/
theorem Given.away (hH : H.Sound I) (h : Given I t L) : L.Pairwise Region.Away := by
  obtain ⟨live, hI, hperm⟩ := h
  have haway : (L.map Region.given).Pairwise Pages.Away :=
    (hperm.pairwise_iff fun h => Or.symm h).mp (hH.away t live hI)
  rw [List.pairwise_map] at haway
  exact haway

theorem Given.bare_ok (hH : H.Sound I) (h : Given I t (L ++ [Region.bare a n])) (hn : 0 < n.toNat) :
    (Region.bare a n).Ok := by
  obtain ⟨live, hI, hperm⟩ := h
  have hmem : (⟨a, n⟩ : Pages) ∈ live := hperm.mem_iff.mpr (by simp [Region.given, Region.bare])
  exact ⟨hH.pos t live hI _ hmem, hn, hH.high t live hI _ hmem, Spans.Packed.nil, nofun⟩

/-- What `allocate_new_page` ends with. -/
inductive Allocated (I : σ → List Pages → Prop) (L : List Region) (size : Word) (s : State σ) :
    Word → State σ → Prop
  | refused (m : Memory 32) (t : σ) (hkept : Kept L s.memory m) (hgiven : Given I t L) :
      Allocated I L size s NULL
        { s with memory := m, pages := t, l_warningCount := s.l_warningCount + 1 }
  | page (a : Word) (m : Memory 32) (t : σ) (hkept : Kept L s.memory m)
      (hgiven : Given I t (L ++ [Region.bare a (page_count size)]))
      (hbare : (Region.bare a (page_count size)).Ok)
      (hheader : Major.codec.read m a =
        ⟨NULL, NULL, page_count size, page_count size * l_pageSize, sizeof_major, NULL⟩) :
      Allocated I L size s a
        { s with
          memory := m, pages := t
          l_allocated := s.l_allocated + (page_count size * l_pageSize).setWidth 64 }

theorem call_alloc_ok (h : H.liballoc_alloc n (s.pages, s.memory) = .ok (a, t, m)) :
    (call_alloc H n).run s = (.ok a, { s with memory := m, pages := t }) := by
  simp only [call_alloc, h]

theorem call_alloc_error {e : ε} (h : H.liballoc_alloc n (s.pages, s.memory) = .error e) :
    (call_alloc H n).run s = (.error (.hook e), s) := by
  simp only [call_alloc, h]

theorem allocate_ends (hH : H.Sound I) (h : Given I s.pages L) (hsize : size.toNat + 48 < 2 ^ 32) :
    Ends IsHook (allocate_new_page H size) s (Allocated I L size s) := by
  have hcount := page_count_le hsize
  obtain ⟨live, hI, hperm⟩ := h
  unfold allocate_new_page
  cases hcall : H.liballoc_alloc (page_count size) (s.pages, s.memory) with
  | error e =>
    exact .of_error (bind_error (call_alloc_error hcall)) trivial
  | ok out =>
    obtain ⟨a, t, m⟩ := out
    obtain ⟨hsame, hgave⟩ := hH.alloc _ _ _ _ _ _ _ hI hcall
    have hkept : Kept L s.memory m := fun r hr x hx =>
      hsame r.given (hperm.mem_iff.mpr (List.mem_map_of_mem hr)) x hx
    refine .next (call_alloc_ok hcall) ?_
    rcases hgave with ⟨rfl, hI'⟩ | ⟨hne, hI'⟩
    · rw [if_pos rfl]
      exact .of_ok rfl (.refused m t hkept ⟨live, hI', hperm⟩)
    · rw [if_neg hne]
      have hgiven : Given I t (L ++ [Region.bare a (page_count size)]) := by
        refine ⟨_, hI', ?_⟩
        rw [List.map_append, List.map_singleton]
        exact (hperm.cons _).trans (List.perm_append_singleton _ _).symm
      have hbare := hgiven.bare_ok hH (by omega)
      refine .of_ok rfl (.page a _ t (fun r hr x hx => ?_) hgiven hbare major_same)
      refine (major_outside hbare.header_le fun hx' => ?_).trans (hkept r hr x hx)
      have haway := (List.pairwise_append.mp (hgiven.away hH)).2.2 r hr _ (List.mem_singleton.mpr rfl)
      have hpages := hbare.pages
      unfold Region.Away Region.fin at haway
      unfold Pages.Has Pages.fin at hx
      unfold Among at hx'
      change _ ∨ a.toNat + 4096 * (page_count size).toNat ≤ r.addr.toNat at haway
      change r.addr.toNat ≤ x.toNat ∧ x.toNat < r.addr.toNat + 4096 * r.pages.toNat at hx
      change r.addr.toNat + 4096 * r.pages.toNat ≤ a.toNat ∨ _ at haway
      change 0 < (page_count size).toNat at hpages
      change a.toNat ≤ x.toNat ∧ x.toNat < a.toNat + 24 at hx'
      omega

/-! ## Linking -/

/-- A bare region behind the others, once it is linked. -/
theorem Rep.link (h : Rep s L) (hok : Ok (L ++ [Region.bare a n]))
    (hmajor : Major.codec.read m' a =
      ⟨Region.dlist.finish NULL L, NULL, n, n * l_pageSize, sizeof_major, NULL⟩)
    (hlast : ∀ zs z, L = zs ++ [z] →
      Major.codec.read m' z.addr = { Major.codec.read s.memory z.addr with next := a })
    (hframe : ∀ r ∈ L, ∀ x, r.given.Has x → (∀ zs z, L = zs ++ [z] → ¬ Among z.addr 24 x) → m' x = s.memory x)
    (hmemory : s'.memory = m') (hroot : s'.l_memRoot = Region.dlist.start (L ++ [Region.bare a n]) NULL)
    (hbest : s'.l_bestBet = s.l_bestBet)
    (halloc : s'.l_allocated = s.l_allocated + (n * l_pageSize).setWidth 64) (hinuse : s'.l_inuse = s.l_inuse) :
    Rep s' (L ++ [Region.bare a n]) := by
  subst hmemory
  have hlast_addr : ∀ r ∈ L, ∀ x : Word, r.addr.toNat + 24 ≤ x.toNat → x.toNat < r.fin →
      s'.memory x = s.memory x := by
    intro r hr x h1 h2
    refine hframe r hr x ⟨by show r.addr.toNat ≤ _; omega, h2⟩ fun zs z hz hx => ?_
    have hzmem : z ∈ L := by simp [hz]
    have hpages := (h.ok.regions z hzmem).pages
    unfold Among at hx
    obtain rfl := h.ok.same_region hr hzmem (x := x) (by omega) h2 hx.1 (by unfold Region.fin; omega)
    omega
  refine ⟨hok, hroot, ?_, fun r hr => ?_, fun r hr b hb => ?_, ?_, ?_, ?_⟩
  · refine Dlist.linked_append.mpr ⟨?_, hmajor, trivial⟩
    refine h.majors.relink_last (fun zs z hz => ?_) fun zs z hz c hc => ?_
    · subst hz
      show Major.codec.read s'.memory z.addr = _
      rw [hlast zs z rfl, h.major_eq]
      rfl
    · have hcL : c ∈ L := by simp [hz, hc]
      have hcok := h.ok.regions c hcL
      have hpages := hcok.pages
      refine Major.codec.read_agree hcok.header_le fun x hx => hframe c hcL x ⟨hx.1, ?_⟩ fun zs' z' hz' hx' => ?_
      · have h24 : x.toNat < c.addr.toNat + 24 := hx.2
        show x.toNat < c.addr.toNat + 4096 * c.pages.toNat
        omega
      · subst hz
        obtain ⟨-, hz'⟩ := List.append_inj' hz' rfl
        cases hz'
        have haway := (List.pairwise_append.mp h.ok.away).2.2 c hc z (by simp)
        exact ((hcok.apart (h.ok.regions z (by simp)) haway).not_among hx') hx
  · rcases List.mem_append.mp hr with hr | hr
    · refine (h.minors r hr).congr fun c hc => ?_
      have hin := (h.ok.regions r hr).block hc
      have h1 := hin.lo
      have h2 := hin.hi
      refine Minor.codec.read_agree hin.header_le fun x hx => ?_
      have h3 : c.addr.toNat ≤ x.toNat := hx.1
      have h4 : x.toNat < c.addr.toNat + 24 := hx.2
      exact hlast_addr r hr x (by omega) (by omega)
    · rw [List.mem_singleton.mp hr]
      trivial
  · rcases List.mem_append.mp hr with hr | hr
    · have hin := (h.ok.regions r hr).block hb
      have h1 := hin.lo
      have h2 := hin.hi
      have h3 := hin.mark_inside
      unfold Block.fin at h3
      rw [hlast_addr r hr b.mark (by omega) (by omega)]
      exact h.marks r hr b hb
    · rw [List.mem_singleton.mp hr] at hb
      cases hb
  · rw [hbest]
    rcases h.bestBet with hnull | ⟨q, hq, hbet⟩
    · exact .inl hnull
    · exact .inr ⟨q, by simp [hq], hbet⟩
  · rw [halloc, h.allocated]
    simp [bytes_allocated, Region.bare]
  · rw [hinuse, h.inuse]
    simp [bytes_inuse, Region.bare]

/-- What `append_major` ends with. -/
inductive Appended (I : σ → List Pages → Prop) (L : List Region) (size : Word) (s : State σ) :
    Word → State σ → Prop
  | refused (s' : State σ) (hgood : Good I s' L) (hkept : PayloadsKept (blocks L) s.memory s'.memory) :
      Appended I L size s NULL s'
  | page (a : Word) (s' : State σ) (hne : a ≠ NULL)
      (hgood : Good I s' (L ++ [Region.bare a (page_count size)]))
      (hkept : PayloadsKept (blocks L) s.memory s'.memory) : Appended I L size s a s'

theorem append_ends (hH : H.Sound I) (h : Good I s (zs ++ [z])) (hsize : size.toNat + 48 < 2 ^ 32) :
    Ends IsHook (append_major H z.addr size) s (Appended I (zs ++ [z]) size s) := by
  have hrep := h.rep
  have hz := hrep.ok.regions z (by simp)
  have hzr := hz.header_le
  have hheader : Major.codec.read s.memory z.addr = ⟨Region.dlist.finish NULL zs, NULL, z.pages,
      z.pages * l_pageSize, BitVec.ofNat 32 z.used, z.first⟩ := hrep.major_eq
  -- the header of the last region is one of the bytes that the hook keeps
  have hsame : ∀ m, Kept (zs ++ [z]) s.memory m → Major.codec.read m z.addr = Major.codec.read s.memory z.addr := by
    intro m hkept
    have hpages := hz.pages
    refine Major.codec.read_agree hzr fun x hx => hkept z (by simp) x ⟨hx.1, ?_⟩
    have h24 : x.toNat < z.addr.toNat + 24 := hx.2
    show x.toNat < z.addr.toNat + 4096 * z.pages.toNat
    omega
  refine (allocate_ends hH h.given hsize).bind fun a s' hs' => ?_
  cases hs' with
  | refused m t hkept hgiven =>
    rw [whenever_neg (fun h => h rfl)]
    refine .of_ok rfl ?_
    have hwrite : Major.codec.write m z.addr { Major.codec.read m z.addr with next := NULL } = m := by
      rw [hsame m hkept, hheader, ← hheader, ← hsame m hkept, Codec.write_read]
    refine .refused _ ⟨hrep.agree (fun x hx => ?_) rfl rfl rfl rfl, hgiven⟩ ?_
    · obtain ⟨r, hr, h1, h2⟩ := hx.home hrep.ok
      exact (congrFun hwrite x).trans (hkept r hr x ⟨h1, h2⟩)
    · show PayloadsKept _ s.memory (Major.codec.write m z.addr _)
      rw [hwrite]
      exact hkept.payloads hrep.ok
  | page a m t hkept hgiven hbare hmajor =>
    have hne : a ≠ NULL := hbare.pos
    rw [whenever_pos hne]
    have hok : Ok (zs ++ [z] ++ [Region.bare a (page_count size)]) := by
      refine ⟨fun r hr => ?_, hgiven.away hH⟩
      rcases List.mem_append.mp hr with hr | hr
      · exact hrep.ok.regions r hr
      · rw [List.mem_singleton.mp hr]
        exact hbare
    have hfar : ∀ r ∈ zs ++ [z], r.Away (Region.bare a (page_count size)) := fun r hr =>
      (List.pairwise_append.mp hok.away).2.2 r hr _ (List.mem_singleton.mpr rfl)
    have haz : Apart z.addr 24 a 24 := hz.apart hbare (hfar z (by simp))
    -- bytes of the old regions that are not in the header of the last one
    have hold : ∀ r ∈ zs ++ [z], ∀ x, r.given.Has x → ¬ Among z.addr 24 x →
        Major.codec.write (Major.codec.write m z.addr { Major.codec.read m z.addr with next := a }) a
          { Major.codec.read (Major.codec.write m z.addr { Major.codec.read m z.addr with next := a }) a with
            prev := z.addr } x = s.memory x := by
      intro r hr x hx hnot
      have hax : ¬ Among a 24 x := by
        have haway := hfar r hr
        have hpages := hbare.pages
        intro hax
        unfold Among at hax
        unfold Region.Away Region.fin at haway
        obtain ⟨h1, h2⟩ := hx
        change r.addr.toNat ≤ x.toNat at h1
        change x.toNat < r.addr.toNat + 4096 * r.pages.toNat at h2
        change 0 < (page_count size).toNat at hpages
        change r.addr.toNat + 4096 * r.pages.toNat ≤ a.toNat ∨
          a.toNat + 4096 * (page_count size).toNat ≤ r.addr.toNat at haway
        omega
      rw [major_outside haz.snd hax, major_outside hzr hnot]
      exact hkept r hr x hx
    refine .of_ok rfl (.page a _ hne ⟨?_, hgiven⟩ ?_)
    · refine hrep.link hok ?_ ?_ ?_ rfl ?_ rfl rfl rfl
      · refine major_same.trans ?_
        rw [major_major haz.symm, hmajor, Dlist.finish_concat]
        rfl
      · intro zs' z' hz'
        obtain ⟨-, hz'⟩ := List.append_inj' hz' rfl
        cases hz'
        refine (major_major haz).trans (major_same.trans ?_)
        rw [hsame m hkept]
      · exact fun r hr x hx hnot => hold r hr x hx (hnot zs z rfl)
      · show s.l_memRoot = _
        rw [hrep.root, Dlist.start_append, Dlist.start_append]
        cases zs <;> rfl
    · intro b hb x hx
      obtain ⟨r, hr, hb⟩ := mem_blocks.mp hb
      obtain ⟨h1, h2⟩ := hrep.ok.payload_home hr hb hx
      refine hold r hr x h2 fun hzx => ?_
      unfold Among at hzx
      have hpages := hz.pages
      obtain rfl := hrep.ok.same_region hr (by simp : z ∈ zs ++ [z]) (x := x) h2.1 h2.2 hzx.1
        (by unfold Region.fin; omega)
      omega

/-- The first major of an empty heap. -/
inductive Rooted (I : σ → List Pages → Prop) (size : Word) (s : State σ) : Bool → State σ → Prop
  | refused (s' : State σ) (hgood : Good I s' []) : Rooted I size s false s'
  | page (a : Word) (s' : State σ) (hgood : Good I s' [Region.bare a (page_count size)]) : Rooted I size s true s'

theorem root_ends (hH : H.Sound I) (h : Good I s []) (hsize : size.toNat + 48 < 2 ^ 32) :
    Ends IsHook (ensure_root H size) s (Rooted I size s) := by
  have hrep := h.rep
  have hnull : s.l_memRoot = NULL := hrep.root
  refine .next rfl ?_
  rw [if_pos hnull]
  refine (allocate_ends hH h.given hsize).bind fun a s' hs' => ?_
  cases hs' with
  | refused m t hkept hgiven =>
    refine .of_ok rfl (.refused _ ⟨hrep.agree (fun x hx => ?_) hnull.symm rfl rfl rfl, hgiven⟩)
    obtain ⟨r, hr, -⟩ := hx.home hrep.ok
    cases hr
  | page a m t hkept hgiven hbare hmajor =>
    have hpos : decide (a ≠ NULL) = true := decide_eq_true hbare.pos
    refine .of_ok (a := true) (by rw [← hpos]; rfl) (.page a _ ⟨?_, hgiven⟩)
    refine hrep.link ⟨fun r hr => ?_, hgiven.away hH⟩ hmajor (fun zs z hz => by simp at hz) nofun rfl rfl
      rfl rfl rfl
    rw [List.mem_singleton.mp hr]
    exact hbare

end

end Condor.Heap.Liballoc
