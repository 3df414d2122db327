import Condor.Heap.Kfree
import Condor.Heap.Kmalloc

/-!
# Filling and copying

`liballoc_memset` fills a block byte by byte; `liballoc_memcpy` copies words as long as
there are four bytes left, then bytes, upwards. `kcalloc` and the part of `krealloc` that
moves a block use them on what `kmalloc` returned, without a test for `NULL`.
-/

namespace Condor.Heap.Liballoc

open Lib Lib.Prog

section
variable {ε σ α β : Type} {s : State σ} {p d n : Word} {v : BitVec 8}

theorem toNat_ofNat_lt {i : Nat} (h : i < 2 ^ 32) : (BitVec.ofNat 32 i).toNat = i := by
  rw [BitVec.toNat_ofNat, Nat.mod_eq_of_lt h]

/-- A loop of `k` turns that changes the memory only: before turn `i` it is `m i`. -/
theorem pointer_loop_run {turn : α → Code ε σ (α ⊕ β)} {a : Nat → α} {m : Nat → Memory 32} {b : β} {k : Nat}
    {a₀ : α} (hk : k < 2 ^ 32) (ha : a 0 = a₀) (hm : m 0 = s.memory)
    (hturn : ∀ i < k, (turn (a i)).run { s with memory := m i } =
      (.ok (.inl (a (i + 1))), { s with memory := m (i + 1) }))
    (hlast : (turn (a k)).run { s with memory := m k } = (.ok (.inr b), { s with memory := m k })) :
    (pointer_loop turn a₀).run s = (.ok b, { s with memory := m k }) := by
  subst ha
  have hs : s = { s with memory := m 0 } := by rw [hm]
  rw [pointer_loop]
  exact (congrArg _ hs).trans (iterate_steps (a := a) (t := fun i => { s with memory := m i }) hturn hlast hk)

/-- `liballoc_memset` fills the block. -/
theorem memset_run : (liballoc_memset p v n : Code ε σ Word).run s =
    (.ok p, { s with memory := filled n.toNat p (fun _ => v) s.memory }) := by
  have hn := n.isLt
  have hloop : (pointer_loop (memset_turn p v n) 0 : Code ε σ Unit).run s =
      (.ok (), { s with memory := filled n.toNat p (fun _ => v) s.memory }) := by
    refine pointer_loop_run (a := fun i => BitVec.ofNat 32 i) (m := fun i => filled i p (fun _ => v) s.memory)
      hn rfl filled_zero (fun i hi => ?_) ?_
    · have hlt : BitVec.ofNat 32 i < n := by
        rw [BitVec.lt_def, toNat_ofNat_lt (by omega)]
        exact hi
      rw [memset_turn, if_pos hlt, ← filled_filled (f := fun _ => v) (by omega : i + 1 ≤ 2 ^ 32) (by decide),
        filled_one, BitVec.ofNat_add]
      rfl
    · rw [memset_turn, if_neg (by rw [BitVec.lt_def, toNat_ofNat_lt hn]; omega)]
      rfl
  rw [liballoc_memset, bind_ok hloop]
  rfl

/-- The locals of the copy after `i` bytes. -/
theorem Copy.ahead_ahead (c : Copy) (i j : Nat) :
    (c.ahead (BitVec.ofNat 32 i)).ahead (BitVec.ofNat 32 j) = c.ahead (BitVec.ofNat 32 (i + j)) := by
  simp only [Copy.ahead, BitVec.ofNat_add, BitVec.add_assoc, BitVec.sub_sub]

theorem Copy.ahead_zero (c : Copy) : c.ahead 0 = c := by
  simp [Copy.ahead]

theorem Copy.toNat_left {c : Copy} {i : Nat} (h : i ≤ c.n.toNat) :
    (c.ahead (BitVec.ofNat 32 i)).n.toNat = c.n.toNat - i := by
  have hn := c.n.isLt
  show (c.n - BitVec.ofNat 32 i).toNat = _
  rw [BitVec.toNat_sub, toNat_ofNat_lt (by omega)]
  omega

theorem memcpy_words_turn {c : Copy} (h : 4 ≤ c.n.toNat) : (memcpy_words c : Code ε σ _).run s =
    (.ok (.inl (c.ahead 4)), { s with memory := moved 4 c.dest c.src s.memory }) := by
  have hcopy : moved 4 c.dest c.src s.memory = (words 1).write s.memory c.dest ((words 1).read s.memory c.src) :=
    (words 1).write_read_moved.symm
  have hle : 4 ≤ c.n := h
  rw [memcpy_words, if_pos hle, hcopy]
  rfl

theorem memcpy_bytes_turn {c : Copy} (h : 0 < c.n.toNat) : (memcpy_bytes c : Code ε σ _).run s =
    (.ok (.inl (c.ahead 1)), { s with memory := moved 1 c.dest c.src s.memory }) := by
  have hlt : 0 < c.n := h
  rw [memcpy_bytes, if_pos hlt, moved_one]
  rfl

/-- The loop over words. -/
theorem memcpy_words_run (h : (p - d).toNat + n.toNat ≤ 2 ^ 32) :
    (pointer_loop memcpy_words ⟨d, p, n⟩ : Code ε σ Copy).run s =
      (.ok ((Copy.mk d p n).ahead (BitVec.ofNat 32 (4 * (n.toNat / 4)))),
        { s with memory := moved (4 * (n.toNat / 4)) d p s.memory }) := by
  refine pointer_loop_run (a := fun i => (Copy.mk d p n).ahead (BitVec.ofNat 32 (4 * i)))
    (m := fun i => moved (4 * i) d p s.memory) (by omega : n.toNat / 4 < 2 ^ 32) (Copy.ahead_zero _) moved_zero
    (fun i hi => ?_) ?_
  · have hleft := Copy.toNat_left (c := ⟨d, p, n⟩) (i := 4 * i) (by show 4 * i ≤ n.toNat; omega)
    rw [memcpy_words_turn (by rw [hleft]; show 4 ≤ n.toNat - 4 * i; omega), Nat.mul_succ, ← Copy.ahead_ahead,
      ← moved_moved (by omega) (by decide)]
    rfl
  · have hleft := Copy.toNat_left (c := ⟨d, p, n⟩) (i := 4 * (n.toNat / 4)) (by show _ ≤ n.toNat; omega)
    rw [memcpy_words, if_neg (by rw [BitVec.le_def, hleft]; show ¬ 4 ≤ n.toNat - 4 * (n.toNat / 4); omega)]
    rfl

/-- The loop over the bytes that are left. -/
theorem memcpy_bytes_run {j : Nat} {m : Memory 32} (h : (p - d).toNat + n.toNat ≤ 2 ^ 32) (hj : j ≤ n.toNat)
    (hmem : s.memory = moved j d p m) :
    (pointer_loop memcpy_bytes ((Copy.mk d p n).ahead (BitVec.ofNat 32 j)) : Code ε σ Unit).run s =
      (.ok (), { s with memory := moved n.toNat d p m }) := by
  have hn := n.isLt
  have hall : moved n.toNat d p m = moved (j + (n.toNat - j)) d p m := by rw [Nat.add_sub_cancel' hj]
  rw [hall]
  refine pointer_loop_run (a := fun i => (Copy.mk d p n).ahead (BitVec.ofNat 32 (j + i)))
    (m := fun i => moved (j + i) d p m) (by omega : n.toNat - j < 2 ^ 32) rfl hmem.symm (fun i hi => ?_) ?_
  · have hleft := Copy.toNat_left (c := ⟨d, p, n⟩) (i := j + i) (by show _ ≤ n.toNat; omega)
    rw [memcpy_bytes_turn (by rw [hleft]; show 0 < n.toNat - (j + i); omega), ← Nat.add_assoc,
      ← Copy.ahead_ahead _ (j + i) 1, ← moved_moved (by omega : (p - d).toNat + (j + i) + 1 ≤ 2 ^ 32) (by decide)]
    rfl
  · have hleft := Copy.toNat_left (c := ⟨d, p, n⟩) (i := j + (n.toNat - j)) (by show _ ≤ n.toNat; omega)
    rw [memcpy_bytes, if_neg (by rw [BitVec.lt_def, hleft]; show ¬ 0 < n.toNat - (j + (n.toNat - j)); omega)]
    rfl

/-- `liballoc_memcpy` copies the block, unless the destination overlaps the source from behind. -/
theorem memcpy_run (h : (p - d).toNat + n.toNat ≤ 2 ^ 32) : (liballoc_memcpy d p n : Code ε σ Word).run s =
    (.ok d, { s with memory := moved n.toNat d p s.memory }) := by
  rw [liballoc_memcpy, bind_ok (memcpy_words_run h), bind_ok (memcpy_bytes_run h (by omega) rfl)]
  rfl

end

end Condor.Heap.Liballoc
