import Condor.Heap.Users
import Mathlib.Algebra.Order.BigOperators.Group.List
import Mathlib.Algebra.Order.Group.Nat

/-!
# The counters

`l_allocated` is what the hooks have given, `l_inuse` the memory behind the headers of the
minors. In any run `l_inuse` covers what the users asked for, with 32 bytes for aligning
each block, and `l_allocated` covers that and all headers (`Holds.accounts`).
-/

namespace Condor.Heap.Liballoc

open Lib Lib.Prog

/-- Counters do not overflow as long as the sum of their parts is below 2^64. -/
theorem toNat_sum {l : List (BitVec 64)} (h : (l.map BitVec.toNat).sum < 2 ^ 64) :
    l.sum.toNat = (l.map BitVec.toNat).sum := by
  induction l with
  | nil => rfl
  | cons x l ih =>
    rw [List.map_cons, List.sum_cons] at h ⊢
    rw [List.sum_cons, BitVec.toNat_add, ih (by omega), Nat.mod_eq_of_lt h]

section
variable {L : List Region} {r : Region} {b : Block}

/-- The pages of the regions. -/
def room (L : List Region) : Nat := (L.map fun r => 4096 * r.pages.toNat).sum

def size_sum (bs : List Block) : Nat := (bs.map fun b => b.size.toNat).sum

theorem room_lt (hL : Ok L) : room L < 2 ^ 64 := by
  have hlen := hL.length_le
  have hle : room L ≤ (L.map fun r => 4096 * r.pages.toNat).length • 2 ^ 32 := by
    refine List.sum_le_card_nsmul _ _ fun n hn => ?_
    obtain ⟨r, hr, rfl⟩ := List.mem_map.mp hn
    have := (hL.regions r hr).size_lt
    omega
  rw [List.length_map] at hle
  change room L ≤ L.length * 2 ^ 32 at hle
  omega

/-- The blocks of a region with their headers and its own. -/
theorem used_eq (r : Region) : r.used = 24 + 24 * r.blocks.length + size_sum r.blocks := by
  have htotal : ∀ l : List Block, Block.spans.total l = 24 * l.length + size_sum l := by
    intro l
    induction l with
    | nil => rfl
    | cons b l ih =>
      have hspan : Block.spans.fin b - Block.spans.start b = 24 + b.size.toNat := by
        show b.addr.toNat + 24 + b.size.toNat - b.addr.toNat = _
        omega
      rw [Spans.total, ih, hspan, size_sum, size_sum, List.map_cons, List.sum_cons, List.length_cons]
      omega
  rw [Region.used, htotal]
  omega

/-- Headers and blocks fit into the pages. -/
theorem used_le_room (hL : ∀ r ∈ L, r.Ok) :
    size_sum (blocks L) + 24 * (blocks L).length + 24 * L.length ≤ room L := by
  induction L with
  | nil => exact Nat.le_refl _
  | cons r L ih =>
    have hr := (hL r List.mem_cons_self).used_le
    have hrest := ih fun q hq => hL q (List.mem_cons_of_mem _ hq)
    rw [used_eq] at hr
    simp only [blocks, List.flatMap_cons, size_sum, List.map_append, List.sum_append, List.length_append,
      List.length_cons, room, List.map_cons, List.sum_cons] at hr hrest ⊢
    omega

theorem toNat_allocated (hL : Ok L) : (bytes_allocated L).toNat = room L := by
  have hparts : (L.map fun r => (r.pages * l_pageSize).setWidth 64).map BitVec.toNat =
      L.map fun r => 4096 * r.pages.toNat := by
    rw [List.map_map]
    refine List.map_congr_left fun r hr => ?_
    have hsize := (hL.regions r hr).toNat_size
    have hlt := (r.pages * l_pageSize).isLt
    rw [Function.comp_apply, BitVec.toNat_setWidth, Nat.mod_eq_of_lt (by omega), hsize]
  have hlt := room_lt hL
  rw [bytes_allocated, toNat_sum (by rw [hparts]; exact hlt), hparts]
  rfl

theorem toNat_inuse (hL : Ok L) : (bytes_inuse L).toNat = size_sum (blocks L) := by
  have hparts : (L.flatMap fun r => r.blocks.map fun b => b.size.setWidth 64).map BitVec.toNat =
      (blocks L).map fun b => b.size.toNat := by
    rw [List.map_flatMap, blocks, List.map_flatMap]
    refine congrArg (List.flatMap · L) (funext fun r => ?_)
    rw [List.map_map]
    refine List.map_congr_left fun b _ => ?_
    have hlt := b.size.isLt
    rw [Function.comp_apply, BitVec.toNat_setWidth, Nat.mod_eq_of_lt (by omega)]
  have hlt := room_lt hL
  have hle := used_le_room hL.regions
  unfold size_sum at hle ⊢
  rw [bytes_inuse, toNat_sum (by rw [hparts]; omega), hparts]

/-- Each block has 32 bytes more than were asked for. -/
theorem asked_le (hL : Ok L) : ((blocks L).map fun b => b.req.toNat + 32).sum ≤ size_sum (blocks L) := by
  refine List.sum_le_sum fun b hb => ?_
  obtain ⟨r, hr, hb⟩ := mem_blocks.mp hb
  exact ((hL.regions r hr).block hb).padded

end

section
variable {σ : Type} {I : σ → List Pages → Prop} {s : State σ} {live : Set (Lease 32)}

/-- **Accounts.** The counters are what the hooks have given and what is in use. -/
theorem Holds.accounts (h : Holds I s live) :
    ∃ (chunks : List Pages) (held : List (Lease 32)), I s.pages chunks ∧ held.Nodup ∧ (∀ ℓ, ℓ ∈ held ↔ ℓ ∈ live) ∧
      (∀ ℓ ∈ held, ∃ p ∈ chunks, ∀ x, ℓ.Has x → p.Has x) ∧
      s.l_allocated.toNat = (chunks.map fun p => 4096 * p.count.toNat).sum ∧
      (held.map fun ℓ => ℓ.length + 32).sum ≤ s.l_inuse.toNat ∧
      s.l_inuse.toNat + 24 * held.length + 24 * chunks.length ≤ s.l_allocated.toNat := by
  obtain ⟨L, hgood, -, hleases⟩ := h
  obtain ⟨chunks, hchunks, hperm⟩ := hgood.given
  have hL := hgood.rep.ok
  have hroom : (chunks.map fun p => 4096 * p.count.toNat).sum = room L := by
    rw [(hperm.map _).sum_nat, List.map_map]
    rfl
  have hlen : chunks.length = L.length := by rw [hperm.length_eq, List.length_map]
  have hinuse : s.l_inuse.toNat = size_sum (blocks L) := by rw [hgood.rep.inuse, toNat_inuse hL]
  have hallocated : s.l_allocated.toNat = room L := by rw [hgood.rep.allocated, toNat_allocated hL]
  refine ⟨chunks, (blocks L).map Block.lease, hchunks, ?_, fun ℓ => ?_, ?_, by rw [hallocated, hroom], ?_, ?_⟩
  · refine hL.nodup.map_on fun b hb c hc heq => hL.payload_inj hb hc (congrArg Lease.pointer heq)
  · rw [← hleases, List.mem_map]
    rfl
  · intro ℓ hℓ
    obtain ⟨b, hb, rfl⟩ := List.mem_map.mp hℓ
    obtain ⟨r, hr, hbr⟩ := mem_blocks.mp hb
    exact ⟨r.given, hperm.mem_iff.mpr (List.mem_map_of_mem hr), fun x hx => (hL.payload_home hr hbr hx).2⟩
  · rw [hinuse, List.map_map]
    exact asked_le hL
  · rw [hinuse, hallocated, List.length_map, hlen]
    exact used_le_room hL.regions

end

end Condor.Heap.Liballoc
