import Condor.Libc.Memory

/-!
# `memcmp`

The `do` loop of `memcmp` reads a byte of each buffer before it looks at `num`, stops at
the first NUL, and compares `char`s, which are signed. So the result is right if there is
a byte to compare, no NUL in front of the first difference, and both bytes of that
difference are on one side of 0x80, and it is wrong in all other cases but for one buffer
compared with itself (`memcmp_ok_iff`).
-/

namespace Condor.Libc

open Lib Lib.Prog

/-- A turn of the `do` loop, with the index of the next bytes and `num`. -/
def compare_turn (str1 str2 : Address) : Address × Address → Code ((Address × Address) ⊕ BitVec 32)
  | (i, num) => do
    let ca ← load str1 i
    let cb ← load str2 i
    if ca = cb ∧ num > 1#32 ∧ ca ≠ 0#8 ∧ cb ≠ 0#8 then pure (.inl (i + 1#32, num - 1#32))
    else pure (.inr (ca.signExtend 32 - cb.signExtend 32))

def memcmp (ptr1 ptr2 num : Address) : Code (BitVec 32) :=
  if ptr1 = ptr2 then pure 0#32 else size_t_loop (compare_turn ptr1 ptr2) (0#32, num)

/-! ## What is asked of it -/

/-- The first bytes of the two buffers that differ are at `d`. -/
structure FirstDifference (memory : Address → Byte) (ptr1 ptr2 num d : Address) : Prop where
  inside : d < num
  differ : memory (ptr1 + d) ≠ memory (ptr2 + d)
  before : ∀ i < d, memory (ptr1 + i) = memory (ptr2 + i)

/-- What a call of `memcmp` returns and reads is what it should. -/
structure Compares (memory : Address → Byte) (ptr1 ptr2 num : Address) (value : BitVec 32)
    (accesses : List Access) : Prop where
  reads : ∀ a ∈ accesses, ∃ i < num, a = .read ptr1 i ∨ a = .read ptr2 i
  zero : value = 0#32 ↔ ∀ i < num, memory (ptr1 + i) = memory (ptr2 + i)
  sign : ∀ d, FirstDifference memory ptr1 ptr2 num d →
    value.toInt.sign = ((memory (ptr1 + d)).toNat - (memory (ptr2 + d)).toNat : Int).sign

def MemcmpOk (memory : Address → Byte) (ptr1 ptr2 num : Address) : Prop :=
  ∃ value accesses, (memcmp ptr1 ptr2 num).run ⟨memory, []⟩ = (.ok value, ⟨memory, accesses⟩) ∧
    Compares memory ptr1 ptr2 num value accesses

/-- There is a byte, no NUL is in front of the first difference, and it does not cross 0x80. -/
def Comparable (memory : Address → Byte) (ptr1 ptr2 num : Address) : Prop :=
  0#32 < num ∧ ∀ d, FirstDifference memory ptr1 ptr2 num d →
    (∀ i < d, memory (ptr1 + i) ≠ 0#8) ∧ (memory (ptr1 + d)).msb = (memory (ptr2 + d)).msb

variable {memory : Address → Byte} {ptr1 ptr2 num d : Address} {m : Machine} {i k fuel : Nat} {a b : Byte}

/-! ## The difference of two `char`s -/

theorem difference_toInt (a b : Byte) : (a.signExtend 32 - b.signExtend 32).toInt = a.toInt - b.toInt := by
  have ha := BitVec.le_toInt a
  have ha' := BitVec.toInt_lt (x := a)
  have hb := BitVec.le_toInt b
  have hb' := BitVec.toInt_lt (x := b)
  rw [BitVec.toInt_sub, BitVec.toInt_signExtend_of_le (by decide), BitVec.toInt_signExtend_of_le (by decide)]
  exact Int.bmod_eq_of_le (by omega) (by omega)

theorem difference_eq_zero : a.signExtend 32 - b.signExtend 32 = 0#32 ↔ a = b := by
  rw [← BitVec.toInt_inj, difference_toInt, ← BitVec.toInt_inj]
  exact sub_eq_zero

theorem sign_eq_sign {x y : Int} (hx : x ≠ 0) (hy : y ≠ 0) : x.sign = y.sign ↔ (0 < x ↔ 0 < y) := by
  obtain hx | hx := lt_or_gt_of_ne hx <;> obtain hy | hy := lt_or_gt_of_ne hy <;>
    simp [Int.sign_eq_one_of_pos, Int.sign_eq_neg_one_of_neg, hx, hy, not_lt.mpr hx.le, not_lt.mpr hy.le]

/-- Two `char`s compare as bytes do where they have the same sign. -/
theorem difference_sign (hne : a ≠ b) :
    (a.signExtend 32 - b.signExtend 32).toInt.sign = ((a.toNat : Int) - b.toNat).sign ↔ a.msb = b.msb := by
  have hint : a.toInt ≠ b.toInt := fun h => hne (BitVec.toInt_inj.mp h)
  have hnat : a.toNat ≠ b.toNat := fun h => hne (BitVec.eq_of_toNat_eq h)
  have ha := a.isLt
  have hb := b.isLt
  rw [difference_toInt, sign_eq_sign (by omega) (by omega), BitVec.msb_eq_decide, BitVec.msb_eq_decide,
    decide_eq_decide]
  rw [BitVec.toInt_eq_toNat_cond, BitVec.toInt_eq_toNat_cond]
  split <;> split <;> omega

/-! ## The loop -/

/-- The bytes `i` of both buffers. -/
def compared (ptr1 ptr2 i : Address) : List Access := [.read ptr1 i, .read ptr2 i]

/-- What a loop that ends at the bytes `k` returns. -/
def returned (memory : Address → Byte) (ptr1 ptr2 : Address) (k : Nat) : BitVec 32 :=
  (memory (ptr1 + BitVec.ofNat 32 k)).signExtend 32 - (memory (ptr2 + BitVec.ofNat 32 k)).signExtend 32

/-- The loop goes on behind the bytes `i`. -/
def GoesOn (memory : Address → Byte) (ptr1 ptr2 num : Address) (i : Nat) : Prop :=
  memory (ptr1 + BitVec.ofNat 32 i) = memory (ptr2 + BitVec.ofNat 32 i) ∧ i + 1 < num.toNat ∧
    memory (ptr1 + BitVec.ofNat 32 i) ≠ 0#8

theorem one_lt_ofNat {n : Nat} (h : n < 2 ^ 32) : 1#32 < BitVec.ofNat 32 n ↔ 1 < n := by
  rw [BitVec.lt_def, toNat_index h]
  rfl

theorem compare_next (h : GoesOn m.memory ptr1 ptr2 num i) :
    (compare_turn ptr1 ptr2 (BitVec.ofNat 32 i, BitVec.ofNat 32 (num.toNat - i))).run m =
      (.ok (.inl (BitVec.ofNat 32 (i + 1), BitVec.ofNat 32 (num.toNat - (i + 1)))),
        ⟨m.memory, m.accesses ++ compared ptr1 ptr2 (BitVec.ofNat 32 i)⟩) := by
  obtain ⟨heq, hleft, hne⟩ := h
  have hlt := num.isLt
  have hnum : 1#32 < BitVec.ofNat 32 (num.toNat - i) := (one_lt_ofNat (by omega)).mpr (by omega)
  have hpred : BitVec.ofNat 32 (num.toNat - i) - 1#32 = BitVec.ofNat 32 (num.toNat - (i + 1)) := by
    rw [show num.toNat - i = num.toNat - (i + 1) + 1 by omega, index_pred]
  rw [compare_turn, bind_ok (load_run ..), bind_ok (load_run ..), if_pos ⟨heq, hnum, hne, heq ▸ hne⟩, pure_run,
    hpred, List.append_assoc, BitVec.ofNat_add]
  rfl

theorem compare_last (hi : i ≤ num.toNat) (h : ¬ GoesOn m.memory ptr1 ptr2 num i) :
    (compare_turn ptr1 ptr2 (BitVec.ofNat 32 i, BitVec.ofNat 32 (num.toNat - i))).run m =
      (.ok (.inr (returned m.memory ptr1 ptr2 i)), ⟨m.memory, m.accesses ++ compared ptr1 ptr2 (BitVec.ofNat 32 i)⟩) := by
  have hlt := num.isLt
  rw [compare_turn, bind_ok (load_run ..), bind_ok (load_run ..), if_neg, pure_run, List.append_assoc]
  · rfl
  · rintro ⟨heq, hnum, hne, -⟩
    have hleft := (one_lt_ofNat (by omega)).mp hnum
    exact h ⟨heq, by omega, hne⟩

/-- The loop ends at the first bytes behind which it does not go on, and has read up to them. -/
theorem compare_run (hi : i ≤ num.toNat) (hfuel : num.toNat - i < fuel) :
    ∃ k, i ≤ k ∧ (k < num.toNat ∨ k = i) ∧ (∀ j, i ≤ j → j < k → GoesOn m.memory ptr1 ptr2 num j) ∧
      ¬ GoesOn m.memory ptr1 ptr2 num k ∧
      (iterate (compare_turn ptr1 ptr2) .pending fuel
          (BitVec.ofNat 32 i, BitVec.ofNat 32 (num.toNat - i))).run m =
        (.ok (returned m.memory ptr1 ptr2 k), ⟨m.memory, m.accesses ++
            (List.range' i (k + 1 - i)).flatMap fun j => compared ptr1 ptr2 (BitVec.ofNat 32 j)⟩) := by
  induction fuel generalizing i m with
  | zero => exact absurd hfuel (Nat.not_lt_zero _)
  | succ fuel ih =>
    by_cases hgoes : GoesOn m.memory ptr1 ptr2 num i
    · have hleft := hgoes.2.1
      obtain ⟨k, hik, hk, hbefore, hlast, hrun⟩ :=
        @ih ⟨m.memory, m.accesses ++ compared ptr1 ptr2 (BitVec.ofNat 32 i)⟩ (i + 1) (by omega) (by omega)
      refine ⟨k, by omega, by omega, fun j hij hjk => ?_, hlast, ?_⟩
      · obtain rfl | hij := Nat.eq_or_lt_of_le hij
        · exact hgoes
        · exact hbefore j hij hjk
      · rw [iterate_next (compare_next hgoes), hrun, show k + 1 - i = k + 1 - (i + 1) + 1 by omega,
          List.range'_succ, List.flatMap_cons, List.append_assoc]
    · refine ⟨i, Nat.le_refl i, .inr rfl, fun j hij hji => absurd hij (by omega), hgoes, ?_⟩
      rw [iterate_last (compare_last hi hgoes), show i + 1 - i = 1 by omega]
      simp

theorem memcmp_run (hne : ptr1 ≠ ptr2) (memory : Address → Byte) (num : Address) :
    ∃ k, (k < num.toNat ∨ k = 0) ∧ (∀ j < k, GoesOn memory ptr1 ptr2 num j) ∧ ¬ GoesOn memory ptr1 ptr2 num k ∧
      (memcmp ptr1 ptr2 num).run ⟨memory, []⟩ =
        (.ok (returned memory ptr1 ptr2 k), ⟨memory, (indices (k + 1)).flatMap (compared ptr1 ptr2)⟩) := by
  obtain ⟨k, -, hk, hbefore, hlast, hrun⟩ :=
    @compare_run ptr1 ptr2 num ⟨memory, []⟩ 0 (2 ^ 32) (Nat.zero_le _) num.isLt
  rw [Nat.sub_zero, Nat.sub_zero, ofNat_toNat_self, ← List.range_eq_range', List.nil_append] at hrun
  refine ⟨k, hk, fun j hj => hbefore j (Nat.zero_le j) hj, hlast, ?_⟩
  rw [memcmp, if_neg hne, indices, List.flatMap_map]
  exact hrun

/-! ## The result -/

/-- Where the loop ends, seen from the first difference: there, or at a NUL in front of it. -/
theorem end_eq (hbefore : ∀ j < k, GoesOn memory ptr1 ptr2 num j) (hlast : ¬ GoesOn memory ptr1 ptr2 num k)
    (hd : FirstDifference memory ptr1 ptr2 num d) :
    BitVec.ofNat 32 k = d ∨ BitVec.ofNat 32 k < d ∧ memory (ptr1 + BitVec.ofNat 32 k) = 0#8 := by
  have hinside : d.toNat < num.toNat := hd.inside
  have hnum := num.isLt
  obtain hlt | heq | hgt := lt_trichotomy k d.toNat
  · have hkd : BitVec.ofNat 32 k < d := by
      rw [BitVec.lt_def, toNat_index (by omega)]
      exact hlt
    refine .inr ⟨hkd, by_contra fun hne => hlast ⟨hd.before _ hkd, by omega, hne⟩⟩
  · exact .inl (by rw [heq, ofNat_toNat_self])
  · have hgoes := (hbefore d.toNat hgt).1
    rw [ofNat_toNat_self] at hgoes
    exact absurd hgoes hd.differ

theorem exists_firstDifference {i : Address} (hi : i < num) (hne : memory (ptr1 + i) ≠ memory (ptr2 + i)) :
    ∃ d, FirstDifference memory ptr1 ptr2 num d := by
  induction hk : i.toNat using Nat.strong_induction_on generalizing i with
  | _ k ih =>
    by_cases hfirst : ∀ j < i, memory (ptr1 + j) = memory (ptr2 + j)
    · exact ⟨i, hi, hne, hfirst⟩
    · push Not at hfirst
      obtain ⟨j, hj, hjne⟩ := hfirst
      exact ih j.toNat (hk ▸ hj) (BitVec.lt_trans hj hi) hjne rfl

/-- A right result has a byte to read, and the loop ends at the first difference. -/
theorem comparable_of_compares (hbefore : ∀ j < k, GoesOn memory ptr1 ptr2 num j)
    (hlast : ¬ GoesOn memory ptr1 ptr2 num k)
    (h : Compares memory ptr1 ptr2 num (returned memory ptr1 ptr2 k)
      ((indices (k + 1)).flatMap (compared ptr1 ptr2))) :
    Comparable memory ptr1 ptr2 num := by
  have hpos : 0#32 < num := by
    have hmem : Access.read ptr1 0#32 ∈ (indices (k + 1)).flatMap (compared ptr1 ptr2) :=
      List.mem_flatMap.mpr ⟨0#32, List.mem_map.mpr ⟨0, by simp, rfl⟩, List.mem_cons_self⟩
    obtain ⟨i, hi, -⟩ := h.reads _ hmem
    exact lt_of_le_of_lt (Nat.zero_le i.toNat) hi
  refine ⟨hpos, fun d hd => ?_⟩
  obtain heq | ⟨hlt, -⟩ := end_eq hbefore hlast hd
  · have hsign := h.sign d hd
    rw [returned, heq, difference_sign hd.differ] at hsign
    refine ⟨fun i hi hzero => ?_, hsign⟩
    have hik : i.toNat < k := by
      rw [← heq, BitVec.lt_def] at hi
      exact lt_of_lt_of_le hi (BitVec.toNat_ofNat k 32 ▸ Nat.mod_le _ _)
    have hgoes := (hbefore i.toNat hik).2.2
    rw [ofNat_toNat_self] at hgoes
    exact hgoes hzero
  · -- the loop ended at a NUL, with 0
    exact absurd (h.zero.mp (difference_eq_zero.mpr (hd.before _ hlt)) d hd.inside) hd.differ

theorem compares_of_comparable (hk : k < num.toNat ∨ k = 0)
    (hbefore : ∀ j < k, GoesOn memory ptr1 ptr2 num j) (hlast : ¬ GoesOn memory ptr1 ptr2 num k)
    (h : Comparable memory ptr1 ptr2 num) :
    Compares memory ptr1 ptr2 num (returned memory ptr1 ptr2 k)
      ((indices (k + 1)).flatMap (compared ptr1 ptr2)) := by
  have hlt := num.isLt
  have hpos : 0 < num.toNat := h.1
  have hinside : k < num.toNat := by omega
  have hend (d) (hd : FirstDifference memory ptr1 ptr2 num d) : BitVec.ofNat 32 k = d :=
    (end_eq hbefore hlast hd).resolve_right fun hnul => (h.2 d hd).1 _ hnul.1 hnul.2
  refine ⟨fun a ha => ?_, ?_, fun d hd => ?_⟩
  · obtain ⟨i, hi, hmem⟩ := List.mem_flatMap.mp ha
    rw [mem_indices (by omega)] at hi
    exact ⟨i, show i.toNat < num.toNat by omega, by simpa [compared] using hmem⟩
  · rw [returned, difference_eq_zero]
    refine ⟨fun heq i hi => by_contra fun hne => ?_, fun hall => hall _ ?_⟩
    · obtain ⟨d, hd⟩ := exists_firstDifference hi hne
      exact hd.differ (hend d hd ▸ heq)
    · rwa [BitVec.lt_def, toNat_index (by omega)]
  · rw [returned, hend d hd, difference_sign hd.differ]
    exact (h.2 d hd).2

theorem memcmp_self (memory : Address → Byte) (ptr num : Address) : MemcmpOk memory ptr ptr num := by
  refine ⟨0#32, [], ?_, fun a ha => absurd ha List.not_mem_nil, by simp, fun d hd => absurd rfl hd.differ⟩
  rw [memcmp, if_pos rfl, pure_run]

theorem comparable_of_ok (hne : ptr1 ≠ ptr2) (h : MemcmpOk memory ptr1 ptr2 num) :
    Comparable memory ptr1 ptr2 num := by
  obtain ⟨k, -, hbefore, hlast, hrun⟩ := memcmp_run hne memory num
  obtain ⟨value, accesses, hrun', h⟩ := h
  rw [hrun] at hrun'
  cases hrun'
  exact comparable_of_compares hbefore hlast h

theorem ok_of_comparable (hne : ptr1 ≠ ptr2) (h : Comparable memory ptr1 ptr2 num) :
    MemcmpOk memory ptr1 ptr2 num := by
  obtain ⟨k, hk, hbefore, hlast, hrun⟩ := memcmp_run hne memory num
  exact ⟨_, _, hrun, compares_of_comparable hk hbefore hlast h⟩

/-- `memcmp` is right if and only if it compares a buffer with itself or the buffers are comparable. -/
theorem memcmp_ok_iff (memory : Address → Byte) (ptr1 ptr2 num : Address) :
    MemcmpOk memory ptr1 ptr2 num ↔ ptr1 = ptr2 ∨ Comparable memory ptr1 ptr2 num := by
  by_cases hne : ptr1 = ptr2
  · subst hne
    exact ⟨fun _ => .inl rfl, fun _ => memcmp_self memory ptr1 num⟩
  · rw [or_iff_right hne]
    exact ⟨comparable_of_ok hne, ok_of_comparable hne⟩

/-- The bytes 0x80 and 0x00: `memcmp` takes the first as the less. -/
theorem memcmp_high_byte :
    ¬ MemcmpOk (fun a => if a = 0x1000#32 then 0x80#8 else 0x00#8) 0x1000#32 0x2000#32 1#32 := by
  intro h
  have hfirst : FirstDifference (fun a => if a = 0x1000#32 then 0x80#8 else 0x00#8)
      0x1000#32 0x2000#32 1#32 0#32 :=
    ⟨by decide, by simp, fun i hi => absurd hi BitVec.not_lt_zero⟩
  exact absurd ((comparable_of_ok (by decide) h).2 0#32 hfirst).2 (by decide)

end Condor.Libc
