import Mathlib.Data.BitVec

/-!
# Blocks of memory

`moved` is a memory in which a block has been copied at once, `filled` one in
which it has been filled. A copy that goes upwards block by block does the same
if it comes to no byte that it has already written: the source is ahead of the
destination (`moved_moved`). If the destination is ahead of the source, one that
goes downwards does (`moved_down`).
-/

namespace Condor.Lib

variable {w : Nat} {β : Type} {dst src : BitVec w} {m : BitVec w → β} {f : Nat → β}

/-- The `len` bytes at `dst` are those that were at `src`. -/
def moved (len : Nat) (dst src : BitVec w) (m : BitVec w → β) (a : BitVec w) : β :=
  if (a - dst).toNat < len then m (src + (a - dst)) else m a

/-- The bytes at `dst` are those of `f`. -/
def filled (len : Nat) (dst : BitVec w) (f : Nat → β) (m : BitVec w → β) (a : BitVec w) : β :=
  if (a - dst).toNat < len then f (a - dst).toNat else m a

theorem moved_zero : moved 0 dst src m = m := funext fun _ => if_neg (Nat.not_lt_zero _)

theorem filled_zero : filled 0 dst f m = m := funext fun _ => if_neg (Nat.not_lt_zero _)

theorem filled_congr {len : Nat} {g : Nat → β} (h : ∀ i < len, f i = g i) :
    filled len dst f m = filled len dst g m := by
  funext a
  unfold filled
  split
  · exact h _ ‹_›
  · rfl

/-- An address seen from `len` behind the start of a block. -/
theorem toNat_sub_add {len : Nat} (hlen : len < 2 ^ w) (a dst : BitVec w) :
    (a - (dst + BitVec.ofNat w len)).toNat =
      if len ≤ (a - dst).toNat then (a - dst).toNat - len else 2 ^ w + (a - dst).toNat - len := by
  have hlt := (a - dst).isLt
  have hofNat : (BitVec.ofNat w len).toNat = len := by rw [BitVec.toNat_ofNat, Nat.mod_eq_of_lt hlen]
  rw [← BitVec.sub_sub, BitVec.toNat_sub, hofNat]
  split
  · rw [show 2 ^ w - len + (a - dst).toNat = (a - dst).toNat - len + 2 ^ w by omega, Nat.add_mod_right,
      Nat.mod_eq_of_lt (by omega)]
  · rw [Nat.mod_eq_of_lt (by omega)]
    omega

/-- Where a copy takes a byte from. -/
theorem source_eq (len : Nat) (a : BitVec w) :
    src + BitVec.ofNat w len + (a - (dst + BitVec.ofNat w len)) = src + (a - dst) := by
  rw [← BitVec.sub_sub, BitVec.add_assoc, BitVec.add_comm (BitVec.ofNat w len), BitVec.sub_add_cancel]

/-- One more block, behind those that have been copied. -/
theorem moved_moved {len k : Nat} (h : (src - dst).toNat + len + k ≤ 2 ^ w) (hk : 0 < k) :
    moved k (dst + BitVec.ofNat w len) (src + BitVec.ofNat w len) (moved len dst src m) =
      moved (len + k) dst src m := by
  funext a
  have hsub := toNat_sub_add (show len < 2 ^ w by omega) a dst
  have hlt := (a - dst).isLt
  rw [moved, source_eq]
  by_cases hblock : (a - (dst + BitVec.ofNat w len)).toNat < k
  · have hin : len ≤ (a - dst).toNat ∧ (a - dst).toNat < len + k := by
      split at hsub <;> omega
    have hsource : (src + (a - dst) - dst).toNat = (src - dst).toNat + (a - dst).toNat := by
      rw [add_sub_right_comm, BitVec.toNat_add_of_lt (by omega)]
    rw [if_pos hblock, moved, moved, if_neg (by omega), if_pos hin.2]
  · have hout : ¬ (len ≤ (a - dst).toNat ∧ (a - dst).toNat < len + k) := fun hin => by
      rw [if_pos hin.1] at hsub
      omega
    rw [if_neg hblock, moved, moved]
    by_cases hbefore : (a - dst).toNat < len
    · rw [if_pos hbefore, if_pos (by omega)]
    · rw [if_neg hbefore, if_neg (by omega)]

/-- One more block, in front of those that have been copied. -/
theorem moved_down {len k : Nat} (h : (dst - src).toNat + k + len ≤ 2 ^ w) (hlen : 0 < len) :
    moved k dst src (moved len (dst + BitVec.ofNat w k) (src + BitVec.ofNat w k) m) =
      moved (k + len) dst src m := by
  funext a
  have hk : k < 2 ^ w := by omega
  have hsub := toNat_sub_add hk a dst
  have hlt := (a - dst).isLt
  rw [moved]
  by_cases hblock : (a - dst).toNat < k
  · -- the byte that is copied is none of those that have been written
    have hsource : src + (a - dst) - dst = a - dst - (dst - src) := by
      rw [add_sub_right_comm, BitVec.add_comm, ← neg_sub dst src, BitVec.sub_eq_add_neg (a - dst)]
    have hback := toNat_sub_add hk (src + (a - dst)) dst
    have hmod : (src + (a - dst) - dst).toNat =
        (2 ^ w - (dst - src).toNat + (a - dst).toNat) % 2 ^ w := by
      rw [hsource, BitVec.toNat_sub]
    have hnot : ¬ (src + (a - dst) - (dst + BitVec.ofNat w k)).toNat < len := by
      by_cases hahead : (dst - src).toNat ≤ (a - dst).toNat
      · rw [show 2 ^ w - (dst - src).toNat + (a - dst).toNat = (a - dst).toNat - (dst - src).toNat + 2 ^ w by omega,
          Nat.add_mod_right, Nat.mod_eq_of_lt (by omega)] at hmod
        rw [if_neg (by omega)] at hback
        omega
      · rw [Nat.mod_eq_of_lt (by omega)] at hmod
        split at hback <;> omega
    rw [if_pos hblock, moved, moved, if_neg hnot, if_pos (by omega)]
  · rw [if_pos (by omega)] at hsub
    rw [if_neg hblock, moved, moved, source_eq]
    by_cases hin : (a - dst).toNat < k + len
    · rw [if_pos (by omega), if_pos hin]
    · rw [if_neg (by omega), if_neg hin]

theorem moved_one (dst src : BitVec w) (m : BitVec w → β) :
    moved 1 dst src m = Function.update m dst (m src) := by
  funext a
  have hzero : (a - dst).toNat < 1 ↔ a = dst := by
    rw [Nat.lt_one_iff, ← @sub_eq_zero (BitVec w) _ a dst, ← BitVec.toNat_inj]
    rfl
  unfold moved
  by_cases h : a = dst
  · rw [if_pos (hzero.mpr h), h, Function.update_self, sub_self, add_zero]
  · rw [if_neg (fun hlt => h (hzero.mp hlt)), Function.update_of_ne h]

theorem filled_one (dst : BitVec w) (f : Nat → β) (m : BitVec w → β) :
    filled 1 dst f m = Function.update m dst (f 0) := by
  funext a
  have hzero : (a - dst).toNat < 1 ↔ a = dst := by
    rw [Nat.lt_one_iff, ← @sub_eq_zero (BitVec w) _ a dst, ← BitVec.toNat_inj]
    rfl
  unfold filled
  by_cases h : a = dst
  · rw [if_pos (hzero.mpr h), Nat.lt_one_iff.mp (hzero.mpr h), h, Function.update_self]
  · rw [if_neg (fun hlt => h (hzero.mp hlt)), Function.update_of_ne h]

theorem filled_filled {len k : Nat} (h : len + k ≤ 2 ^ w) (hk : 0 < k) :
    filled k (dst + BitVec.ofNat w len) (fun j => f (len + j)) (filled len dst f m) = filled (len + k) dst f m := by
  funext a
  have hsub := toNat_sub_add (show len < 2 ^ w by omega) a dst
  have hlt := (a - dst).isLt
  rw [filled]
  by_cases hblock : (a - (dst + BitVec.ofNat w len)).toNat < k
  · have hin : len ≤ (a - dst).toNat ∧ (a - dst).toNat < len + k := by
      split at hsub <;> omega
    rw [if_pos hblock, hsub, if_pos hin.1, filled, if_pos hin.2, Nat.add_sub_cancel' hin.1]
  · have hout : ¬ (len ≤ (a - dst).toNat ∧ (a - dst).toNat < len + k) := fun hin => by
      rw [if_pos hin.1] at hsub
      omega
    rw [if_neg hblock, filled, filled]
    by_cases hbefore : (a - dst).toNat < len
    · rw [if_pos hbefore, if_pos (by omega)]
    · rw [if_neg hbefore, if_neg (by omega)]

end Condor.Lib
