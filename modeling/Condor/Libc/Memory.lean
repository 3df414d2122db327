import Condor.Lib.Moved
import Condor.Lib.Prog
import Condor.Libc.Numbers

/-!
# Memory and its accesses

The string functions run on a memory of 2^32 bytes, and every access is logged with
the pointer and the index that it goes through. `memmove` chooses the direction of its
loop by the order of the pointers, so that each byte is read before it is overwritten:
however the two ranges overlap, the destination then holds what the source held
(`memmove_spec`).
-/

namespace Condor.Libc

open Lib Lib.Prog

abbrev Address := BitVec 32

/-- `pointer[index]`. -/
inductive Access where
  | read (pointer index : Address)
  | write (pointer index : Address)
  deriving DecidableEq

structure Machine where
  memory : Address → Byte
  accesses : List Access

abbrev Code := Prog Stop Machine

def load (pointer index : Address) : Code Byte :=
  ⟨fun m => (.ok (m.memory (pointer + index)), { m with accesses := m.accesses ++ [.read pointer index] })⟩

def store (pointer index : Address) (c : Byte) : Code Unit :=
  ⟨fun m => (.ok (), ⟨Function.update m.memory (pointer + index) c, m.accesses ++ [.write pointer index]⟩)⟩

/-- A loop whose counter is a `size_t`. -/
def size_t_loop {α β : Type} (turn : α → Code (α ⊕ β)) (a : α) : Code β := iterate turn .pending (2 ^ 32) a

/-- `dest[i] = src[i]`. -/
def copy (dest src i : Address) : Code Unit := do
  let c ← load src i
  store dest i c

/-- A turn of `for (i = 0; i < num; i++)`. -/
def copy_up (dest src num i : Address) : Code (Address ⊕ Unit) :=
  if i < num then do
    copy dest src i
    pure (.inl (i + 1#32))
  else pure (.inr ())

/-- A turn of `for (i = num; i != 0; i--)`. -/
def copy_down (dest src i : Address) : Code (Address ⊕ Unit) :=
  if i ≠ 0#32 then do
    copy dest src (i - 1#32)
    pure (.inl (i - 1#32))
  else pure (.inr ())

/-- The choice of the direction. -/
def copy_bytes (dest src num : Address) : Code Unit :=
  if dest < src then size_t_loop (copy_up dest src num) 0#32 else size_t_loop (copy_down dest src) num

def memmove (dest src num : Address) : Code Address :=
  if dest = src then pure 0#32
  else do
    copy_bytes dest src num
    pure dest

/-! ## Indices -/

/-- The indices below `k`. -/
def indices (k : Nat) : List Address := (List.range k).map (BitVec.ofNat 32)

variable {dest src num : Address} {m : Machine} {i : Address} {k fuel : Nat}

theorem ofNat_toNat_self (i : Address) : BitVec.ofNat 32 i.toNat = i := by
  rw [BitVec.ofNat_toNat, BitVec.setWidth_eq]

theorem toNat_index (hk : k < 2 ^ 32) : (BitVec.ofNat 32 k).toNat = k := by
  rw [BitVec.toNat_ofNat, Nat.mod_eq_of_lt hk]

theorem index_pred (k : Nat) : BitVec.ofNat 32 (k + 1) - 1#32 = BitVec.ofNat 32 k := by
  rw [BitVec.ofNat_add, BitVec.add_sub_cancel]

theorem index_succ_ne_zero (hk : k + 1 < 2 ^ 32) : BitVec.ofNat 32 (k + 1) ≠ 0#32 := fun hzero => by
  have := congrArg BitVec.toNat hzero
  rw [toNat_index hk] at this
  exact Nat.succ_ne_zero k this

theorem indices_succ (k : Nat) : indices (k + 1) = indices k ++ [BitVec.ofNat 32 k] := by
  rw [indices, List.range_succ, List.map_append]
  rfl

theorem mem_indices (hk : k ≤ 2 ^ 32) : i ∈ indices k ↔ i.toNat < k := by
  refine ⟨fun hi => ?_, fun hi => List.mem_map.mpr ⟨i.toNat, List.mem_range.mpr hi, ofNat_toNat_self i⟩⟩
  obtain ⟨j, hj, rfl⟩ := List.mem_map.mp hi
  rw [List.mem_range] at hj
  rwa [toNat_index (by omega)]

/-! ## The loops -/

/-- The machine after `dest[i] = src[i]`. -/
def copied (dest src : Address) (m : Machine) (i : Address) : Machine where
  memory := Function.update m.memory (dest + i) (m.memory (src + i))
  accesses := m.accesses ++ [.read src i, .write dest i]

theorem load_run (pointer index : Address) (m : Machine) : (load pointer index).run m =
    (.ok (m.memory (pointer + index)), ⟨m.memory, m.accesses ++ [.read pointer index]⟩) := rfl

theorem copy_run : (copy dest src i).run m = (.ok (), copied dest src m i) := by
  show (Except.ok (), Machine.mk _ (m.accesses ++ [.read src i] ++ [.write dest i])) = _
  rw [List.append_assoc]
  rfl

/-- The upward loop copies the bytes that are left, one after the other. -/
theorem copy_up_run (hk : k ≤ num.toNat) (hfuel : num.toNat - k < fuel) :
    (iterate (copy_up dest src num) .pending fuel (BitVec.ofNat 32 k)).run m =
      (.ok (), ((List.range' k (num.toNat - k)).map (BitVec.ofNat 32)).foldl (copied dest src) m) := by
  have hnum := num.isLt
  induction fuel generalizing k m with
  | zero => exact absurd hfuel (Nat.not_lt_zero _)
  | succ fuel ih =>
    have hlt : BitVec.ofNat 32 k < num ↔ k < num.toNat := by
      rw [BitVec.lt_def, toNat_index (by omega)]
    by_cases hleft : k < num.toNat
    · have hturn : (copy_up dest src num (BitVec.ofNat 32 k)).run m =
          (.ok (.inl (BitVec.ofNat 32 (k + 1))), copied dest src m (BitVec.ofNat 32 k)) := by
        rw [copy_up, if_pos (hlt.mpr hleft), bind_ok copy_run, pure_run, BitVec.ofNat_add]
      obtain ⟨left, hnext⟩ : ∃ left, num.toNat - k = left + 1 := ⟨num.toNat - (k + 1), by omega⟩
      rw [iterate_next hturn, ih hleft (by omega), hnext, List.range'_succ, List.map_cons, List.foldl_cons,
        show num.toNat - (k + 1) = left by omega]
    · have hturn : (copy_up dest src num (BitVec.ofNat 32 k)).run m = (.ok (.inr ()), m) := by
        rw [copy_up, if_neg (mt hlt.mp hleft), pure_run]
      rw [iterate_last hturn, show num.toNat - k = 0 by omega]
      rfl

theorem copy_down_run (hk : k < 2 ^ 32) (hfuel : k < fuel) :
    (iterate (copy_down dest src) .pending fuel (BitVec.ofNat 32 k)).run m =
      (.ok (), (indices k).reverse.foldl (copied dest src) m) := by
  induction k generalizing fuel m with
  | zero =>
    obtain ⟨fuel, rfl⟩ : ∃ n, fuel = n + 1 := ⟨fuel - 1, by omega⟩
    exact iterate_last rfl
  | succ k ih =>
    obtain ⟨fuel, rfl⟩ : ∃ n, fuel = n + 1 := ⟨fuel - 1, by omega⟩
    have hturn : (copy_down dest src (BitVec.ofNat 32 (k + 1))).run m =
        (.ok (.inl (BitVec.ofNat 32 k)), copied dest src m (BitVec.ofNat 32 k)) := by
      rw [copy_down, if_pos (index_succ_ne_zero hk), index_pred, bind_ok copy_run, pure_run]
    rw [iterate_next hturn, ih (by omega) (by omega), indices_succ, List.reverse_append,
      List.reverse_singleton, List.singleton_append, List.foldl_cons]

/-! ## The bytes -/

theorem copied_up (h : (src - dest).toNat + k ≤ 2 ^ 32) :
    ((indices k).foldl (copied dest src) m).memory = moved k dest src m.memory := by
  induction k with
  | zero => exact moved_zero.symm
  | succ k ih =>
    rw [indices_succ, List.foldl_append, List.foldl_cons, List.foldl_nil]
    show Function.update _ _ _ = _
    rw [← moved_one, ih (by omega), moved_moved (by omega) (by decide)]

theorem copied_down (h : (dest - src).toNat + k ≤ 2 ^ 32) :
    ((indices k).reverse.foldl (copied dest src) m).memory = moved k dest src m.memory := by
  induction k generalizing m with
  | zero => exact moved_zero.symm
  | succ k ih =>
    rw [indices_succ, List.reverse_append, List.reverse_singleton, List.singleton_append, List.foldl_cons,
      ih (by omega)]
    show moved k dest src (Function.update _ _ _) = _
    rw [← moved_one, moved_down (by omega) (by decide)]

theorem moved_at (mem : Address → Byte) {n : Nat} (h : i.toNat < n) :
    moved n dest src mem (dest + i) = mem (src + i) := by
  rw [moved, add_sub_cancel_left, if_pos h]

theorem moved_outside (mem : Address → Byte) {n : Nat} {a : Address} (hwrap : dest.toNat + n ≤ 2 ^ 32)
    (h : ¬ (dest.toNat ≤ a.toNat ∧ a.toNat < dest.toNat + n)) : moved n dest src mem a = mem a := by
  have ha := a.isLt
  refine if_neg fun hlt => h ?_
  rw [BitVec.toNat_sub] at hlt
  by_cases hle : dest.toNat ≤ a.toNat
  · rw [show 2 ^ 32 - dest.toNat + a.toNat = a.toNat - dest.toNat + 2 ^ 32 by omega, Nat.add_mod_right,
      Nat.mod_eq_of_lt (by omega)] at hlt
    omega
  · rw [Nat.mod_eq_of_lt (by omega)] at hlt
    omega

/-- What a copy reads and writes. -/
theorem mem_copied_accesses {is : List Address} {a : Access} : a ∈ (is.foldl (copied dest src) m).accesses ↔
    a ∈ m.accesses ∨ ∃ i ∈ is, a = .read src i ∨ a = .write dest i := by
  induction is generalizing m with
  | nil => simp
  | cons i is ih => rw [List.foldl_cons, ih]; simp [copied, or_assoc]

/-- The loop reads and writes the indices below `num`, and if it overtakes no byte that is still to be
read, it copies them at once. -/
theorem copy_bytes_run (dest src num : Address) (m : Machine) :
    ∃ m', (copy_bytes dest src num).run m = (.ok (), m') ∧
      (∀ a, a ∈ m'.accesses ↔ a ∈ m.accesses ∨ ∃ i < num, a = .read src i ∨ a = .write dest i) ∧
      ((dest < src → (src - dest).toNat + num.toNat ≤ 2 ^ 32) →
        (¬ dest < src → (dest - src).toNat + num.toNat ≤ 2 ^ 32) →
        m'.memory = moved num.toNat dest src m.memory) := by
  have hnum := num.isLt
  unfold copy_bytes
  split
  · rename_i hlt
    have hrun := @copy_up_run dest src num m 0 (2 ^ 32) (Nat.zero_le _) (by omega)
    rw [Nat.sub_zero, ← List.range_eq_range'] at hrun
    refine ⟨_, hrun, fun a => ?_, fun hup _ => copied_up (hup hlt)⟩
    rw [mem_copied_accesses]
    simp only [← indices.eq_1, mem_indices hnum.le, BitVec.lt_def]
  · rename_i hge
    have hrun := @copy_down_run dest src m num.toNat (2 ^ 32) hnum hnum
    rw [ofNat_toNat_self] at hrun
    refine ⟨_, hrun, fun a => ?_, fun _ hdown => copied_down (hdown hge)⟩
    rw [mem_copied_accesses]
    simp only [List.mem_reverse, mem_indices hnum.le, BitVec.lt_def]

/-- `memmove` copies the range at once, whatever the direction of its loop. -/
theorem memmove_memory (hdest : dest.toNat + num.toNat ≤ 2 ^ 32) (hsrc : src.toNat + num.toNat ≤ 2 ^ 32)
    (m : Machine) : ∃ m', (memmove dest src num).run m = (.ok (if dest = src then 0#32 else dest), m') ∧
      m'.memory = moved num.toNat dest src m.memory := by
  unfold memmove
  split
  · rename_i heq
    refine ⟨m, rfl, funext fun a => ?_⟩
    rw [moved, heq, add_sub_cancel, ite_self]
  obtain ⟨m', hrun, -, hmemory⟩ := copy_bytes_run dest src num m
  refine ⟨m', bind_ok hrun, hmemory (fun hlt => ?_) fun hge => ?_⟩
  · rw [BitVec.toNat_sub_of_le (BitVec.le_of_lt hlt)]
    omega
  · rw [BitVec.toNat_sub_of_le (BitVec.not_lt.mp hge)]
    omega

/-- After `memmove` the destination holds what the source held, and nothing else has changed. -/
theorem memmove_spec (hdest : dest.toNat + num.toNat ≤ 2 ^ 32) (hsrc : src.toNat + num.toNat ≤ 2 ^ 32)
    (m : Machine) : ∃ m', (memmove dest src num).run m = (.ok (if dest = src then 0#32 else dest), m') ∧
      (∀ i < num, m'.memory (dest + i) = m.memory (src + i)) ∧
      ∀ a : Address, ¬ (dest.toNat ≤ a.toNat ∧ a.toNat < dest.toNat + num.toNat) → m'.memory a = m.memory a := by
  obtain ⟨m', hrun, hmemory⟩ := memmove_memory hdest hsrc m
  refine ⟨m', hrun, fun i hi => ?_, fun a ha => ?_⟩
  · rw [hmemory, moved_at _ hi]
  · rw [hmemory, moved_outside _ hdest ha]

/-- Two ranges that overlap in three of their four bytes. -/
theorem memmove_spec_overlap :
    ∃ m', (memmove 0x1001#32 0x1000#32 4#32).run ⟨fun a => a.setWidth 8, []⟩ = (.ok 0x1001#32, m') ∧
      m'.memory 0x1004#32 = 0x03#8 := by
  obtain ⟨m', hrun, hbytes, -⟩ :=
    @memmove_spec 0x1001#32 0x1000#32 4#32 (by decide) (by decide) ⟨fun a => a.setWidth 8, []⟩
  exact ⟨m', hrun, hbytes 3#32 (by decide)⟩

end Condor.Libc
