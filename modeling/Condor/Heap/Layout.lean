import Condor.Heap.Liballoc
import Condor.Lib.Dlist
import Condor.Lib.Spans
import Mathlib.Data.List.Pairwise

/-!
# What the memory of the allocator stands for

A heap is a list of regions, each with its blocks in the order of their addresses.
`Region.Ok` is the geometry: the blocks lie one behind the other between the header of
the region and its end, each with room for what was asked for and for aligning it.
`Rep s L` says that the headers in the memory of `s` are those of the heap `L`, linked
in both directions, and that the counters are its sums.

The bytes that the allocator reads are those for which `Own L` holds. No payload has one
of them (`not_own_of_payload`), and a heap is still represented after all others have
changed (`Rep.agree`).
-/

namespace Condor.Heap.Liballoc

open Lib

@[simp] theorem toNat_NULL : NULL.toNat = 0 := rfl
@[simp] theorem toNat_ALIGN_INFO : ALIGN_INFO.toNat = 16 := rfl
@[simp] theorem toNat_ALIGNMENT : ALIGNMENT.toNat = 16 := rfl
@[simp] theorem toNat_sizeof_major : sizeof_major.toNat = 24 := rfl
@[simp] theorem toNat_sizeof_minor : sizeof_minor.toNat = 24 := rfl

/-! ## Alignment -/

section
variable {p : Word}

theorem toNat_and_15 (p : Word) : (p &&& 15#32).toNat = p.toNat % 16 := by
  rw [BitVec.toNat_and]
  exact Nat.and_two_pow_sub_one_eq_mod p.toNat 4

theorem toNat_align_diff (p : Word) : (align_diff p).toNat = (16 - p.toNat % 16) % 16 := by
  have hand : ((p + ALIGN_INFO) &&& (ALIGNMENT - 1)).toNat = p.toNat % 16 := by
    rw [show ALIGNMENT - 1 = 15#32 by decide, toNat_and_15, BitVec.toNat_add, toNat_ALIGN_INFO]
    omega
  unfold align_diff
  dsimp only
  split
  · rename_i hne
    have hpos : p.toNat % 16 ≠ 0 := fun hmod => hne (BitVec.eq_of_toNat_eq (hand.trans hmod))
    rw [BitVec.toNat_sub, hand, toNat_ALIGNMENT]
    omega
  · rename_i hzero
    have hmod := congrArg BitVec.toNat (not_not.mp hzero)
    rw [hand, show (0 : Word).toNat = 0 from rfl] at hmod
    rw [hand]
    omega

theorem toNat_aligned (h : p.toNat + 32 ≤ 2 ^ 32) :
    (aligned p).toNat = p.toNat + 16 + (16 - p.toNat % 16) % 16 := by
  unfold aligned
  rw [BitVec.toNat_add, BitVec.toNat_add, toNat_align_diff, toNat_ALIGN_INFO]
  omega

/-- Where the alignment information stands. -/
theorem toNat_mark_addr (h : p.toNat + 32 ≤ 2 ^ 32) :
    (aligned p - ALIGN_INFO).toNat = p.toNat + (16 - p.toNat % 16) % 16 := by
  rw [BitVec.toNat_sub, toNat_aligned h, toNat_ALIGN_INFO]
  omega

theorem toNat_align_mark (p : Word) : (align_mark p).toNat = 16 + (16 - p.toNat % 16) % 16 := by
  unfold align_mark
  rw [BitVec.toNat_setWidth, BitVec.toNat_add, toNat_align_diff, toNat_ALIGN_INFO]
  omega

/-- `UNALIGN` undoes `ALIGN` as long as the byte in front of the pointer is in place. -/
theorem UNALIGN_aligned {ε σ : Type} {s : State σ}
    (hmark : s.memory (aligned p - ALIGN_INFO) = align_mark p) :
    (UNALIGN (aligned p) : Code ε σ Word).run s = (.ok p, s) := by
  have hinfo := toNat_align_mark p
  have hadd : (align_diff p + ALIGN_INFO).toNat = 16 + (16 - p.toNat % 16) % 16 := by
    rw [BitVec.toNat_add, toNat_align_diff, toNat_ALIGN_INFO]
    omega
  have hsign : (align_mark p).signExtend 32 = align_diff p + ALIGN_INFO := by
    have hmsb : (align_mark p).msb = false := by
      rw [BitVec.msb_eq_decide, decide_eq_false_iff_not]
      omega
    refine BitVec.eq_of_toNat_eq ?_
    rw [BitVec.signExtend_eq_setWidth_of_msb_false hmsb, BitVec.toNat_setWidth, hinfo, hadd]
    omega
  have hlt : align_diff p + ALIGN_INFO < ALIGNMENT + ALIGN_INFO := by
    rw [BitVec.lt_def, hadd, show (ALIGNMENT + ALIGN_INFO).toNat = 32 from rfl]
    omega
  have hrun : (UNALIGN (aligned p) : Code ε σ Word).run s =
      (.ok (if (s.memory (aligned p - ALIGN_INFO)).signExtend 32 < ALIGNMENT + ALIGN_INFO
        then aligned p - (s.memory (aligned p - ALIGN_INFO)).signExtend 32 else aligned p), s) := rfl
  rw [hrun, hmark, hsign, if_pos hlt, aligned, BitVec.add_assoc, BitVec.add_comm ALIGN_INFO,
    BitVec.add_sub_cancel]

end

/-! ## Heaps -/

/-- A minor: where its header stands, and its two sizes. -/
structure Block where
  addr : Word
  size : Word
  req : Word
  deriving DecidableEq, Repr

/-- A major with its blocks. -/
structure Region where
  addr : Word
  pages : Word
  blocks : List Block
  deriving DecidableEq, Repr

namespace Block

/-- The pointer that `kmalloc` returned. -/
def payload (b : Block) : Word := aligned (b.addr + sizeof_minor)

/-- Where `ALIGN` left its information. -/
def mark (b : Block) : Word := b.payload - ALIGN_INFO

def fin (b : Block) : Nat := b.addr.toNat + 24 + b.size.toNat

def spans : Spans Block where
  start b := b.addr.toNat
  fin := fin
  le b := by
    unfold fin
    omega

/-- The minors of the major `maj`. -/
def dlist (maj : Word) : Dlist Word Block Minor where
  addr := addr
  node prev b next := ⟨prev, next, maj, LIBALLOC_MAGIC, b.size, b.req⟩

@[simp] theorem dlist_addr (maj : Word) (b : Block) : (dlist maj).addr b = b.addr := rfl

end Block

namespace Region

def lo (r : Region) : Nat := r.addr.toNat + 24

def fin (r : Region) : Nat := r.addr.toNat + 4096 * r.pages.toNat

/-- What the headers and the blocks take. -/
def used (r : Region) : Nat := 24 + Block.spans.total r.blocks

/-- The first minor. -/
def first (r : Region) : Word := (Block.dlist r.addr).start r.blocks NULL

def dlist : Dlist Word Region Major where
  addr := addr
  node prev r next := ⟨prev, next, r.pages, r.pages * l_pageSize, BitVec.ofNat 32 r.used, r.first⟩

@[simp] theorem dlist_addr (r : Region) : dlist.addr r = r.addr := rfl

structure Ok (r : Region) : Prop where
  pos : r.addr ≠ NULL
  pages : 0 < r.pages.toNat
  high : r.fin ≤ 2 ^ 32
  packed : Block.spans.Packed r.lo r.fin r.blocks
  padded : ∀ b ∈ r.blocks, b.req.toNat + 32 ≤ b.size.toNat

/-- The regions share no byte. -/
def Away (r q : Region) : Prop := r.fin ≤ q.addr.toNat ∨ q.fin ≤ r.addr.toNat

instance : Std.Symm Region.Away := ⟨fun _ _ h => Or.symm h⟩

end Region

structure Ok (L : List Region) : Prop where
  regions : ∀ r ∈ L, r.Ok
  away : L.Pairwise Region.Away

/-- `x` is a byte that the allocator reads. -/
inductive Own (L : List Region) (x : Word) : Prop
  | major (r : Region) (hr : r ∈ L) (hx : Among r.addr 24 x)
  | minor (r : Region) (hr : r ∈ L) (b : Block) (hb : b ∈ r.blocks) (hx : Among b.addr 24 x)
  | mark (r : Region) (hr : r ∈ L) (b : Block) (hb : b ∈ r.blocks) (hx : x = b.mark)

/-- The bytes that `kmalloc` was asked for. -/
def Block.Payload (b : Block) (x : Word) : Prop := Among b.payload b.req.toNat x

def bytes_allocated (L : List Region) : BitVec 64 := (L.map fun r => (r.pages * l_pageSize).setWidth 64).sum

def bytes_inuse (L : List Region) : BitVec 64 := (L.flatMap fun r => r.blocks.map fun b => b.size.setWidth 64).sum

/-- **Representation.** The state is one of the heap `L`. -/
structure Rep {σ : Type} (s : State σ) (L : List Region) : Prop where
  ok : Ok L
  root : s.l_memRoot = Region.dlist.start L NULL
  majors : Region.dlist.Linked (Major.codec.read s.memory) NULL L NULL
  minors : ∀ r ∈ L, (Block.dlist r.addr).Linked (Minor.codec.read s.memory) NULL r.blocks NULL
  marks : ∀ r ∈ L, ∀ b ∈ r.blocks, s.memory b.mark = align_mark (b.addr + sizeof_minor)
  bestBet : s.l_bestBet = NULL ∨ ∃ r ∈ L, s.l_bestBet = r.addr
  allocated : s.l_allocated = bytes_allocated L
  inuse : s.l_inuse = bytes_inuse L

/-! ## Geometry -/

section
variable {L : List Region} {r q : Region} {b c : Block} {x : Word}

/-- What is known of a block of a region. -/
structure Block.In (b : Block) (r : Region) : Prop where
  lo : r.addr.toNat + 24 ≤ b.addr.toNat
  hi : b.addr.toNat + 24 + b.size.toNat ≤ r.fin
  high : r.fin ≤ 2 ^ 32
  padded : b.req.toNat + 32 ≤ b.size.toNat

theorem Region.Ok.block (hr : r.Ok) (hb : b ∈ r.blocks) : b.In r :=
  ⟨hr.packed.lo b hb, hr.packed.hi b hb, hr.high, hr.padded b hb⟩

theorem Block.In.toNat_data (h : b.In r) : (b.addr + sizeof_minor).toNat = b.addr.toNat + 24 := by
  have h1 := h.hi
  have h2 := h.high
  have h3 := h.padded
  rw [BitVec.toNat_add, toNat_sizeof_minor, Nat.mod_eq_of_lt (by omega)]

/-- Where the payload starts. -/
theorem Block.In.toNat_payload (h : b.In r) :
    b.payload.toNat = b.addr.toNat + 40 + (16 - (b.addr.toNat + 24) % 16) % 16 := by
  have h1 := h.hi
  have h2 := h.high
  have h3 := h.padded
  have hdata := h.toNat_data
  rw [Block.payload, toNat_aligned (by omega), hdata]

theorem Block.In.toNat_mark (h : b.In r) :
    b.mark.toNat = b.addr.toNat + 24 + (16 - (b.addr.toNat + 24) % 16) % 16 := by
  have h1 := h.hi
  have h2 := h.high
  have h3 := h.padded
  have hdata := h.toNat_data
  rw [Block.mark, Block.payload, toNat_mark_addr (by omega), hdata]

/-- Payloads are aligned. -/
theorem Block.In.payload_aligned (h : b.In r) : b.payload.toNat % 16 = 0 := by
  rw [h.toNat_payload]
  omega

/-- A payload lies in its block, behind the header and the mark. -/
theorem Block.In.payload_inside (h : b.In r) :
    b.addr.toNat + 40 ≤ b.payload.toNat ∧ b.mark.toNat < b.payload.toNat ∧
      b.payload.toNat + b.req.toNat ≤ b.fin := by
  have hp := h.toNat_payload
  have hm := h.toNat_mark
  have h1 := h.padded
  unfold Block.fin
  omega

theorem Block.In.mark_inside (h : b.In r) : b.addr.toNat + 24 ≤ b.mark.toNat ∧ b.mark.toNat < b.fin := by
  have hm := h.toNat_mark
  have h1 := h.padded
  unfold Block.fin
  omega

/-- Two blocks of a region are one, or one lies behind the other. -/
theorem Region.Ok.blocks_apart (hr : r.Ok) (hb : b ∈ r.blocks) (hc : c ∈ r.blocks) :
    b = c ∨ b.fin ≤ c.addr.toNat ∨ c.fin ≤ b.addr.toNat := by
  obtain ⟨xs, ys, hl⟩ := List.append_of_mem hb
  have hpacked := hr.packed
  rw [hl] at hpacked hc
  rcases List.mem_append.mp hc with hc | hc
  · exact .inr (.inr (hpacked.le_of_front hc))
  rcases List.mem_cons.mp hc with hc | hc
  · exact .inl hc.symm
  · exact .inr (.inl (hpacked.le_of_back hc))

theorem Ok.regions_away (hL : Ok L) (hr : r ∈ L) (hq : q ∈ L) : r = q ∨ r.Away q := by
  by_cases h : r = q
  · exact .inl h
  · exact .inr (hL.away.forall hr hq h)

/-- A header or a mark of a region lies inside of it. -/
theorem Own.home (hL : Ok L) (h : Own L x) : ∃ r ∈ L, r.addr.toNat ≤ x.toNat ∧ x.toNat < r.fin := by
  cases h with
  | major r hr hx =>
    have hpages := (hL.regions r hr).pages
    refine ⟨r, hr, hx.1, ?_⟩
    have := hx.2
    unfold Region.fin
    omega
  | minor r hr b hb hx =>
    have hin := (hL.regions r hr).block hb
    have h1 := hin.lo
    have h2 := hin.hi
    unfold Among at hx
    exact ⟨r, hr, by omega, by omega⟩
  | mark r hr b hb hx =>
    have hin := (hL.regions r hr).block hb
    have h1 := hin.lo
    have h2 := hin.hi
    have h3 := hin.mark_inside
    unfold Block.fin at h3
    subst hx
    exact ⟨r, hr, by omega, by omega⟩

/-- A region has no byte of another one. -/
theorem Ok.same_region (hL : Ok L) (hr : r ∈ L) (hq : q ∈ L) (h1 : r.addr.toNat ≤ x.toNat)
    (h2 : x.toNat < r.fin) (h3 : q.addr.toNat ≤ x.toNat) (h4 : x.toNat < q.fin) : r = q := by
  rcases hL.regions_away hr hq with h | h
  · exact h
  · unfold Region.Away at h
    omega

theorem Ok.same_block (hL : Ok L) (hr : r ∈ L) (hq : q ∈ L) (hb : b ∈ r.blocks) (hc : c ∈ q.blocks)
    (h1 : b.addr.toNat ≤ x.toNat) (h2 : x.toNat < b.fin) (h3 : c.addr.toNat ≤ x.toNat)
    (h4 : x.toNat < c.fin) : r = q ∧ b = c := by
  have hbin := (hL.regions r hr).block hb
  have hcin := (hL.regions q hq).block hc
  have h5 := hbin.lo
  have h6 := hbin.hi
  have h7 := hcin.lo
  have h8 := hcin.hi
  unfold Block.fin at h2 h4
  obtain rfl : r = q := hL.same_region hr hq (x := x) (by omega) (by omega) (by omega) (by omega)
  refine ⟨rfl, ?_⟩
  rcases (hL.regions r hr).blocks_apart hb hc with h | h
  · exact h
  · unfold Block.fin at h
    omega

/-- The allocator reads no byte of a payload. -/
theorem not_own_of_payload (hL : Ok L) (hr : r ∈ L) (hb : b ∈ r.blocks) (hx : b.Payload x) :
    ¬ Own L x := by
  have hin := (hL.regions r hr).block hb
  obtain ⟨h1, h2, h3⟩ := hin.payload_inside
  have h4 := hin.lo
  have h5 := hin.hi
  unfold Block.Payload Among at hx
  unfold Block.fin at h3
  intro hown
  cases hown with
  | major q hq hy =>
    have hpages := (hL.regions q hq).pages
    unfold Among at hy
    have hsame : r = q := hL.same_region hr hq (x := x) (by omega) (by omega) (by omega)
      (by unfold Region.fin; omega)
    subst hsame
    omega
  | minor q hq c hc hy =>
    unfold Among at hy
    obtain ⟨rfl, rfl⟩ := hL.same_block hr hq hb hc (x := x) (by omega) (by unfold Block.fin; omega) (by omega)
      (by unfold Block.fin; omega)
    omega
  | mark q hq c hc hy =>
    have hmark := ((hL.regions q hq).block hc).mark_inside
    subst hy
    obtain ⟨rfl, rfl⟩ := hL.same_block hr hq hb hc (x := c.mark) (by omega) (by unfold Block.fin; omega) (by omega)
      hmark.2
    omega

/-- The payloads of two blocks share no byte. -/
theorem Ok.same_payload (hL : Ok L) (hr : r ∈ L) (hq : q ∈ L) (hb : b ∈ r.blocks) (hc : c ∈ q.blocks)
    (hx : b.Payload x) (hy : c.Payload x) : r = q ∧ b = c := by
  obtain ⟨h1, -, h2⟩ := ((hL.regions r hr).block hb).payload_inside
  obtain ⟨h3, -, h4⟩ := ((hL.regions q hq).block hc).payload_inside
  unfold Block.Payload Among at hx hy
  exact hL.same_block hr hq hb hc (x := x) (by omega) (by omega) (by omega) (by omega)

end

/-! ## Frames -/

section
variable {σ : Type} {s s' : State σ} {L : List Region} {r : Region} {b : Block}

theorem Region.Ok.header_le (h : r.Ok) : r.addr.toNat + Major.codec.size ≤ 2 ^ 32 := by
  have h1 := h.pages
  have h2 := h.high
  unfold Region.fin at h2
  show r.addr.toNat + 24 ≤ _
  omega

theorem Block.In.header_le (h : b.In r) : b.addr.toNat + Minor.codec.size ≤ 2 ^ 32 := by
  have h1 := h.hi
  have h2 := h.high
  show b.addr.toNat + 24 ≤ _
  omega

/-- The header of a region. -/
theorem Rep.major_eq {pre post : List Region} (h : Rep s (pre ++ r :: post)) :
    Major.codec.read s.memory r.addr = ⟨Region.dlist.finish NULL pre, Region.dlist.start post NULL, r.pages,
      r.pages * l_pageSize, BitVec.ofNat 32 r.used, r.first⟩ := h.majors.node_eq

/-- The header of a block. -/
theorem Rep.minor_eq {xs ys : List Block} (h : Rep s L) (hr : r ∈ L) (hb : r.blocks = xs ++ b :: ys) :
    Minor.codec.read s.memory b.addr = ⟨(Block.dlist r.addr).finish NULL xs, (Block.dlist r.addr).start ys NULL,
      r.addr, LIBALLOC_MAGIC, b.size, b.req⟩ :=
  Dlist.Linked.node_eq (hb ▸ h.minors r hr)

/-- A state in which all bytes of the allocator are as they were. -/
theorem Rep.agree (h : Rep s L) (hm : ∀ x, Own L x → s'.memory x = s.memory x)
    (hroot : s'.l_memRoot = s.l_memRoot) (hbest : s'.l_bestBet = s.l_bestBet)
    (halloc : s'.l_allocated = s.l_allocated) (hinuse : s'.l_inuse = s.l_inuse) : Rep s' L where
  ok := h.ok
  root := hroot.trans h.root
  majors := h.majors.congr fun r hr =>
    Major.codec.read_agree (h.ok.regions r hr).header_le fun x hx => hm x (.major r hr hx)
  minors r hr := (h.minors r hr).congr fun b hb =>
    Minor.codec.read_agree ((h.ok.regions r hr).block hb).header_le fun x hx => hm x (.minor r hr b hb hx)
  marks r hr b hb := (hm _ (.mark r hr b hb rfl)).trans (h.marks r hr b hb)
  bestBet := hbest ▸ h.bestBet
  allocated := halloc.trans h.allocated
  inuse := hinuse.trans h.inuse

end

end Condor.Heap.Liballoc
