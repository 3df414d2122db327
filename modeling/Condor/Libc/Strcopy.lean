import Condor.Libc.Memory

/-!
# `strcopy` and `strncopy`

`strcopy` copies as many bytes as the longer of the two strings has, the old one at the
destination being the other. So it leaves out the NUL or goes on behind it, unless the
destination has a NUL at the end of the new string or ends one byte behind it. The loops of
`strncopy` go on where the source has a NUL instead of stopping there: the upward one is right
for fewer bytes than the string has, the downward one up to the NUL, but never of an empty
string (`string_copies_iff`).
-/

namespace Condor.Libc

open Lib Lib.Prog

/-! ## The code -/

/-- A turn of `while (str[len])`. -/
def strlen_turn (str len : Address) : Code (Address ⊕ Address) := do
  let c ← load str len
  if c ≠ 0#8 then pure (.inl (len + 1#32)) else pure (.inr len)

def strlen (str : Address) : Code Address := size_t_loop (strlen_turn str) 0#32

def strcopy (dest src : Address) : Code Address :=
  if dest = src then pure dest
  else do
    let new ← strlen src
    let old ← strlen dest
    let num ← if new > old then strlen src else strlen dest
    copy_bytes dest src num
    pure dest

/-- `!src[i]`. -/
def is_nul (src i : Address) : Code Bool := do
  let c ← load src i
  pure (c == 0#8)

/-- A turn whose condition is `counts || !src[i]`, and whose body `dest[index] = src[index]`. -/
def ncopy_turn (dest src : Address) (counts : Bool) (i index next : Address) : Code (Address ⊕ Unit) := do
  let more ← if counts then pure true else is_nul src i
  if more then do
    copy dest src index
    pure (.inl next)
  else pure (.inr ())

/-- A turn of `for (i = 0; i < num || !src[i]; i++)`. -/
def ncopy_up (dest src num i : Address) : Code (Address ⊕ Unit) :=
  ncopy_turn dest src (i < num) i i (i + 1#32)

/-- A turn of `for (i = num; i != 0 || !src[i]; i--)`. -/
def ncopy_down (dest src i : Address) : Code (Address ⊕ Unit) :=
  ncopy_turn dest src (i ≠ 0#32) i (i - 1#32) (i - 1#32)

/-- With `fuel` turns of its loop: it need not end. -/
def strncopy (fuel : Nat) (dest src num : Address) : Code Address :=
  if dest = src then pure dest
  else do
    if dest < src then iterate (ncopy_up dest src num) .pending fuel 0#32
    else iterate (ncopy_down dest src) .pending fuel num
    pure dest

/-! ## What is asked of it -/

/-- The string at `str` has the length `n`. -/
structure StringAt (memory : Address → Byte) (str n : Address) : Prop where
  nul : memory (str + n) = 0#8
  before : ∀ i < n, memory (str + i) ≠ 0#8

/-- The buffers of `n + 1` bytes at `dest` and at `src` do not overlap. -/
def Separate (dest src n : Address) : Prop := ∀ i ≤ n, ∀ j ≤ n, dest + i ≠ src + j

/-- Only `src[i]` up to its NUL is read through `src`, and only `dest[i]` with `W i` is written. -/
structure Confined (accesses : List Access) (dest src n : Address) (W : Address → Prop) : Prop where
  reads : ∀ i, .read src i ∈ accesses → i ≤ n
  writes : ∀ p i, .write p i ∈ accesses → p = dest ∧ W i

def StrcopyOk (memory : Address → Byte) (dest src n : Address) : Prop :=
  ∃ m', (strcopy dest src).run ⟨memory, []⟩ = (.ok dest, m') ∧ Confined m'.accesses dest src n (· ≤ n) ∧
    ∀ i ≤ n, m'.memory (dest + i) = memory (src + i)

def StrncopyOk (memory : Address → Byte) (dest src n num : Address) : Prop :=
  ∃ fuel m', (strncopy fuel dest src num).run ⟨memory, []⟩ = (.ok dest, m') ∧
    Confined m'.accesses dest src n (· < num) ∧ ∀ i < num, i ≤ n → m'.memory (dest + i) = memory (src + i)

variable {memory : Address → Byte} {dest src str n k num i : Address} {m m' : Machine}

/-! ## Strings and buffers -/

theorem exists_string (h : memory (str + i) = 0#8) : ∃ k ≤ i, StringAt memory str k := by
  induction hi : i.toNat using Nat.strong_induction_on generalizing i with
  | _ n ih =>
    by_cases hfirst : ∀ j < i, memory (str + j) ≠ 0#8
    · exact ⟨i, BitVec.le_refl i, h, hfirst⟩
    · push Not at hfirst
      obtain ⟨j, hj, hnul⟩ := hfirst
      obtain ⟨k, hk, hstring⟩ := ih j.toNat (hi ▸ hj) hnul rfl
      exact ⟨k, BitVec.le_trans hk (BitVec.le_of_lt hj), hstring⟩

theorem StringAt.le (h : StringAt memory str k) (hnul : memory (str + i) = 0#8) : k ≤ i :=
  BitVec.not_lt.mp fun hlt => h.before i hlt hnul

theorem zero_le_address (n : Address) : 0#32 ≤ n := Nat.zero_le n.toNat

theorem toNat_pred (h : n < k) : (k - 1#32).toNat = k.toNat - 1 :=
  BitVec.toNat_sub_of_le (show 1 ≤ k.toNat from Nat.succ_le_of_lt (Nat.zero_lt_of_lt h))

/-- From each buffer on, the other one starts behind it. -/
theorem Separate.behind (h : Separate dest src n) : n < src - dest ∧ n < dest - src := by
  refine ⟨BitVec.not_le.mp fun hle => ?_, BitVec.not_le.mp fun hle => ?_⟩
  · exact h (src - dest) hle 0#32 (zero_le_address n) (by rw [add_sub_cancel, BitVec.add_zero])
  · exact h 0#32 (zero_le_address n) (dest - src) hle (by rw [add_sub_cancel, BitVec.add_zero])

theorem Separate.distances (h : Separate dest src n) :
    (src - dest).toNat + (n.toNat + 1) ≤ 2 ^ 32 ∧ (dest - src).toNat + (n.toNat + 1) ≤ 2 ^ 32 ∧
      n.toNat + 1 < 2 ^ 32 := by
  obtain ⟨hup, hdown⟩ := h.behind
  have hsum : (src - dest).toNat = (2 ^ 32 - (dest - src).toNat) % 2 ^ 32 := by
    rw [← neg_sub dest src, BitVec.toNat_neg]
  rw [BitVec.lt_def] at hup hdown
  omega

theorem Separate.ne (h : Separate dest src n) : dest ≠ src := by
  have := h 0#32 (zero_le_address n) 0#32 (zero_le_address n)
  rwa [BitVec.add_zero, BitVec.add_zero] at this

/-- A copy of no more than the string and its NUL leaves the source as it is. -/
theorem Separate.moved_src (h : Separate dest src n) {len : Nat} (hlen : len ≤ n.toNat + 1) (hi : i ≤ n) :
    moved len dest src memory (src + i) = memory (src + i) := by
  refine if_neg fun hlt => h (src + i - dest) ?_ i hi (add_sub_cancel ..)
  rw [BitVec.le_def]
  omega

/-- It leaves what is behind the copied bytes. -/
theorem moved_behind {len : Nat} (hlen : len ≤ i.toNat) :
    moved len dest src memory (dest + i) = memory (dest + i) := by
  refine if_neg fun hlt => ?_
  rw [add_sub_cancel_left] at hlt
  omega

/-! ## `strcopy` -/

/-- The loop of `strlen` from the index `i` on. `P` is what is known of the accesses. -/
theorem strlen_loop {P : Access → Prop} {fuel : Nat} (hi : i ≤ k) (hfuel : k.toNat - i.toNat < fuel)
    (h : StringAt m.memory str k) (hP : ∀ i ≤ k, P (.read str i)) (hm : ∀ a ∈ m.accesses, P a) :
    ∃ accesses, (iterate (strlen_turn str) .pending fuel i).run m = (.ok k, ⟨m.memory, accesses⟩) ∧
      ∀ a ∈ accesses, P a := by
  induction fuel generalizing i m with
  | zero => exact absurd hfuel (Nat.not_lt_zero _)
  | succ fuel ih =>
    have hread : ∀ a ∈ m.accesses ++ [.read str i], P a :=
      List.forall_mem_append.mpr ⟨hm, List.forall_mem_singleton.mpr (hP i hi)⟩
    obtain rfl | hlt : i = k ∨ i < k := by
      rw [← BitVec.toNat_inj, BitVec.lt_def]
      exact Nat.eq_or_lt_of_le hi
    · refine ⟨_, iterate_last ?_, hread⟩
      rw [strlen_turn, bind_ok (load_run ..), if_neg (not_not.mpr h.nul), pure_run]
    · have hturn : (strlen_turn str i).run m =
          (.ok (.inl (i + 1#32)), ⟨m.memory, m.accesses ++ [.read str i]⟩) := by
        rw [strlen_turn, bind_ok (load_run ..), if_pos (h.before i hlt), pure_run]
      have hk := k.isLt
      rw [BitVec.lt_def] at hlt
      have hsucc : (i + 1#32).toNat = i.toNat + 1 := BitVec.toNat_add_of_lt (show i.toNat + 1 < 2 ^ 32 by omega)
      have hle : i + 1#32 ≤ k := by
        rw [BitVec.le_def]
        omega
      rw [iterate_next hturn]
      exact ih hle (by omega) h hread

theorem strlen_run {P : Access → Prop} (h : StringAt m.memory str k) (hP : ∀ i ≤ k, P (.read str i))
    (hm : ∀ a ∈ m.accesses, P a) :
    ∃ accesses, (strlen str).run m = (.ok k, ⟨m.memory, accesses⟩) ∧ ∀ a ∈ accesses, P a :=
  strlen_loop (zero_le_address k) (show k.toNat - 0 < 2 ^ 32 from k.isLt) h hP hm

/-- A read of the source up to its NUL, or of the destination. -/
def Looks (dest src n : Address) (a : Access) : Prop :=
  (∃ i ≤ n, a = .read src i) ∨ ∃ i, a = .read dest i

/-- The number of bytes that it copies. -/
def longer (new old : Address) : Address := if new > old then new else old

theorem longer_of_le (h : k ≤ n) : longer n k = n := by
  unfold longer
  split
  · rfl
  · exact BitVec.le_antisymm h (BitVec.not_lt.mp ‹_›)

theorem longer_of_lt (h : n < k) : longer n k = k := if_neg (BitVec.not_lt.mpr (BitVec.le_of_lt h))

/-- Before its loop `strcopy` has only looked for the ends of both strings. -/
theorem strcopy_run (hsrc : StringAt memory src n) (hdest : StringAt memory dest k) (hne : dest ≠ src) :
    ∃ accesses, (strcopy dest src).run ⟨memory, []⟩ =
        (copy_bytes dest src (longer n k) >>= fun _ => pure dest).run ⟨memory, accesses⟩ ∧
      ∀ a ∈ accesses, Looks dest src n a := by
  have hP : ∀ i ≤ n, Looks dest src n (.read src i) := fun i hi => .inl ⟨i, hi, rfl⟩
  have hQ : ∀ i ≤ k, Looks dest src n (.read dest i) := fun i _ => .inr ⟨i, rfl⟩
  obtain ⟨accesses₁, hrun₁, h₁⟩ := @strlen_run src n ⟨memory, []⟩ _ hsrc hP fun a ha => absurd ha List.not_mem_nil
  obtain ⟨accesses₂, hrun₂, h₂⟩ := @strlen_run dest k ⟨memory, accesses₁⟩ _ hdest hQ h₁
  rw [strcopy, if_neg hne, bind_ok hrun₁, bind_ok hrun₂]
  unfold longer
  by_cases hlt : n > k
  · obtain ⟨accesses₃, hrun₃, h₃⟩ := @strlen_run src n ⟨memory, accesses₂⟩ _ hsrc hP h₂
    rw [if_pos hlt, if_pos hlt, bind_ok hrun₃]
    exact ⟨accesses₃, rfl, h₃⟩
  · obtain ⟨accesses₃, hrun₃, h₃⟩ := @strlen_run dest k ⟨memory, accesses₂⟩ _ hdest hQ h₂
    rw [if_neg hlt, if_neg hlt, bind_ok hrun₃]
    exact ⟨accesses₃, rfl, h₃⟩

theorem strcopy_copies (hsrc : StringAt memory src n) (hdest : StringAt memory dest k) (hsep : Separate dest src n) :
    ∃ m', (strcopy dest src).run ⟨memory, []⟩ = (.ok dest, m') ∧
      (∀ a ∈ m'.accesses, Looks dest src n a ∨ ∃ i < longer n k, a = .read src i ∨ a = .write dest i) ∧
      (∀ i < longer n k, .read src i ∈ m'.accesses) ∧
      ((longer n k).toNat ≤ n.toNat + 1 → m'.memory = moved (longer n k).toNat dest src memory) := by
  obtain ⟨accesses, hrun, hlooks⟩ := strcopy_run hsrc hdest hsep.ne
  obtain ⟨m', hcopy, haccesses, hmemory⟩ := copy_bytes_run dest src (longer n k) ⟨memory, accesses⟩
  obtain ⟨hup, hdown, -⟩ := hsep.distances
  refine ⟨m', hrun.trans (bind_ok hcopy), fun a ha => ?_, fun i hi => ?_, fun hlen => ?_⟩
  · exact ((haccesses a).mp ha).imp_left (hlooks a)
  · exact (haccesses _).mpr (.inr ⟨i, hi, .inl rfl⟩)
  · exact hmemory (fun _ => by omega) fun _ => by omega

/-- The copied bytes are the string, if they are as many as it has, and a NUL is behind them. -/
theorem moved_string {len : Nat} (hsrc : StringAt memory src n) (hlow : n.toNat ≤ len)
    (hend : n.toNat < len ∨ memory (dest + n) = 0#8) (hi : i ≤ n) :
    moved len dest src memory (dest + i) = memory (src + i) := by
  rw [BitVec.le_def] at hi
  by_cases hlt : i.toNat < len
  · exact moved_at memory hlt
  · obtain rfl : i = n := BitVec.eq_of_toNat_eq (by omega)
    rw [moved_behind (by omega), hsrc.nul]
    exact hend.resolve_left hlt

theorem strcopy_ok (hsrc : StringAt memory src n) (hdest : StringAt memory dest k) (hsep : Separate dest src n)
    (hlow : n.toNat ≤ (longer n k).toNat) (hhigh : (longer n k).toNat ≤ n.toNat + 1)
    (hend : n.toNat < (longer n k).toNat ∨ memory (dest + n) = 0#8) : StrcopyOk memory dest src n := by
  obtain ⟨m', hrun, haccesses, -, hmemory⟩ := strcopy_copies hsrc hdest hsep
  have hindex {i : Address} (hi : i < longer n k) : i ≤ n := by
    rw [BitVec.lt_def] at hi
    rw [BitVec.le_def]
    omega
  refine ⟨m', hrun, ⟨fun i hi => ?_, fun p i hi => ?_⟩, fun i hi => ?_⟩
  · obtain (⟨j, hj, heq⟩ | ⟨j, heq⟩) | ⟨j, hj, heq | heq⟩ := haccesses _ hi
    · cases heq
      exact hj
    · cases heq
      exact absurd rfl hsep.ne
    · cases heq
      exact hindex hj
    · cases heq
  · obtain (⟨j, -, heq⟩ | ⟨j, heq⟩) | ⟨j, hj, heq | heq⟩ := haccesses _ hi <;> cases heq
    exact ⟨rfl, hindex hj⟩
  · rw [hmemory hhigh, moved_string hsrc hlow hend hi]

/-- `strcopy` is right if and only if the destination has a NUL where the new string ends, or is a string
that ends one byte behind it. -/
theorem strcopy_ok_iff (hsrc : StringAt memory src n) (hsep : Separate dest src n) :
    StrcopyOk memory dest src n ↔ memory (dest + n) = 0#8 ∨ StringAt memory dest (n + 1#32) := by
  have hsucc : (n + 1#32).toNat = n.toNat + 1 := BitVec.toNat_add_of_lt hsep.distances.2.2
  have hnul : memory (dest + (src + n - dest)) = 0#8 := by rw [add_sub_cancel, hsrc.nul]
  obtain ⟨k, -, hdest⟩ := exists_string hnul
  refine ⟨fun ⟨m', hrun', hconfined, htext⟩ => ?_, ?_⟩
  · obtain ⟨m', hrun, -, hreads, hmemory⟩ := strcopy_copies hsrc hdest hsep
    rw [hrun] at hrun'
    cases hrun'
    by_cases hlt : n < k
    · -- the last byte that is copied is not behind the NUL
      have hpred := toNat_pred hlt
      rw [BitVec.lt_def] at hlt
      have hlast := hconfined.reads _ (hreads (k - 1#32) (by rw [longer_of_lt hlt, BitVec.lt_def]; omega))
      rw [BitVec.le_def] at hlast
      obtain rfl : k = n + 1#32 := BitVec.eq_of_toNat_eq (by omega)
      exact .inr hdest
    · rw [longer_of_le (BitVec.not_lt.mp hlt)] at hmemory
      have hend := htext n (BitVec.le_refl n)
      rw [hmemory (Nat.le_succ _), moved_behind (Nat.le_refl _), hsrc.nul] at hend
      exact .inl hend
  · rintro (hzero | hstring)
    · have hlonger := longer_of_le (hdest.le hzero)
      exact strcopy_ok hsrc hdest hsep (by rw [hlonger]) (by rw [hlonger]; omega) (.inr hzero)
    · have hlonger : longer n (n + 1#32) = n + 1#32 := longer_of_lt (by rw [BitVec.lt_def]; omega)
      exact strcopy_ok hsrc hstring hsep (by rw [hlonger]; omega) (by rw [hlonger]; omega)
        (.inl (by rw [hlonger]; omega))

/-! ## `strncopy` -/

section Turn

variable {counts : Bool} {index next : Address}

theorem is_nul_run (src i : Address) (m : Machine) :
    (is_nul src i).run m = (.ok (m.memory (src + i) == 0#8), ⟨m.memory, m.accesses ++ [.read src i]⟩) := rfl

theorem ncopy_counts :
    (ncopy_turn dest src true i index next).run m = (.ok (.inl next), copied dest src m index) := by
  rw [ncopy_turn, if_pos rfl, bind_ok (pure_run ..)]
  dsimp only
  rw [if_pos rfl, bind_ok copy_run, pure_run]

/-- Behind the count a character other than NUL ends the loop. -/
theorem ncopy_ends (h : m.memory (src + i) ≠ 0#8) :
    (ncopy_turn dest src false i index next).run m =
      (.ok (.inr ()), ⟨m.memory, m.accesses ++ [.read src i]⟩) := by
  rw [ncopy_turn, if_neg Bool.false_ne_true, bind_ok (is_nul_run ..), beq_false_of_ne h]
  rfl

/-- At a NUL it goes on. -/
theorem ncopy_goes_on (h : m.memory (src + i) = 0#8) :
    (ncopy_turn dest src false i index next).run m =
      (.ok (.inl next), copied dest src ⟨m.memory, m.accesses ++ [.read src i]⟩ index) := by
  rw [ncopy_turn, if_neg Bool.false_ne_true, bind_ok (is_nul_run ..), h]
  dsimp only
  rw [beq_self_eq_true, if_pos rfl, bind_ok copy_run, pure_run]

theorem ncopy_keeps {a : Access} : Keeps (fun m => a ∈ m.accesses) (ncopy_turn dest src counts i index next) := by
  have hload (p i) : Keeps (fun m => a ∈ m.accesses) (load p i) := fun _ h => List.mem_append_left _ h
  have hstore (p i c) : Keeps (fun m => a ∈ m.accesses) (store p i c) := fun _ h => List.mem_append_left _ h
  have hnul : Keeps (fun m => a ∈ m.accesses) (is_nul src i) := (hload src i).bind fun _ => Keeps.pure _
  have hcopy : Keeps (fun m => a ∈ m.accesses) (copy dest src index) := (hload src index).bind fun c => hstore dest index c
  have hbody (more : Bool) : Keeps (fun m => a ∈ m.accesses) (if more then do
      copy dest src index
      pure (.inl next)
    else pure (.inr ()) : Code (Address ⊕ Unit)) := Keeps.ite (hcopy.bind fun _ => Keeps.pure _) (Keeps.pure _)
  exact Keeps.ite ((Keeps.pure true).bind hbody) (hnul.bind hbody)

end Turn

/-- While `i < num` the upward loop copies. -/
theorem ncopy_up_counted {left : Nat} (hleft : i.toNat + left = num.toNat) :
    Returns (ncopy_up dest src num) .pending i m () m' ↔
      Returns (ncopy_up dest src num) .pending num
        (((List.range' i.toNat left).map (BitVec.ofNat 32)).foldl (copied dest src) m) () m' := by
  induction left generalizing i m with
  | zero =>
    obtain rfl : i = num := BitVec.eq_of_toNat_eq hleft
    rfl
  | succ left ih =>
    have hnum := num.isLt
    have hlt : i < num := by
      rw [BitVec.lt_def]
      omega
    have hsucc : (i + 1#32).toNat = i.toNat + 1 := BitVec.toNat_add_of_lt (show i.toNat + 1 < 2 ^ 32 by omega)
    have hturn : (ncopy_up dest src num i).run m = (.ok (.inl (i + 1#32)), copied dest src m i) := by
      rw [ncopy_up, decide_eq_true hlt, ncopy_counts]
    rw [returns_next hturn, ih (by omega), List.range'_succ, List.map_cons, List.foldl_cons, hsucc,
      ofNat_toNat_self]

/-- While `i` is not 0 the downward loop copies. -/
theorem ncopy_down_counted {k : Nat} (hk : k < 2 ^ 32) :
    Returns (ncopy_down dest src) .pending (BitVec.ofNat 32 k) m () m' ↔
      Returns (ncopy_down dest src) .pending 0#32 ((indices k).reverse.foldl (copied dest src) m) () m' := by
  induction k generalizing m with
  | zero => rfl
  | succ k ih =>
    have hturn : (ncopy_down dest src (BitVec.ofNat 32 (k + 1))).run m =
        (.ok (.inl (BitVec.ofNat 32 k)), copied dest src m (BitVec.ofNat 32 k)) := by
      rw [ncopy_down, decide_eq_true (index_succ_ne_zero hk), index_pred, ncopy_counts]
    rw [returns_next hturn, ih (by omega), indices_succ, List.reverse_append, List.reverse_singleton,
      List.singleton_append, List.foldl_cons]

theorem then_pure {x : Code Unit} {v : Address} :
    (x >>= fun _ => pure v).run m = (.ok v, m') ↔ x.run m = (.ok (), m') := by
  cases hx : x.run m with
  | mk r s =>
    cases r with
    | ok _ => rw [bind_ok hx, pure_run, Prod.mk.injEq, Prod.mk.injEq]; simp
    | error e => rw [bind_error hx]; simp

/-- The upward loop has copied `num` bytes when it looks at the source behind them. -/
theorem strncopy_up (hlt : dest < src) : (∃ fuel, (strncopy fuel dest src num).run m = (.ok dest, m')) ↔
    Returns (ncopy_up dest src num) .pending num ((indices num.toNat).foldl (copied dest src) m) () m' := by
  have hne : dest ≠ src := fun heq => BitVec.lt_irrefl src (heq ▸ hlt)
  have hcounted := @ncopy_up_counted dest src num 0#32 m m' num.toNat (Nat.zero_add _)
  rw [indices, List.range_eq_range']
  refine Iff.trans (exists_congr fun fuel => ?_) hcounted
  rw [strncopy, if_neg hne, if_pos hlt]
  exact then_pure

/-- The downward loop has copied them when it looks at the first byte of the source. -/
theorem strncopy_down (hne : dest ≠ src) (hge : ¬ dest < src) :
    (∃ fuel, (strncopy fuel dest src num).run m = (.ok dest, m')) ↔
      Returns (ncopy_down dest src) .pending 0#32 ((indices num.toNat).reverse.foldl (copied dest src) m) () m' := by
  have hcounted := @ncopy_down_counted dest src m m' num.toNat num.isLt
  rw [ofNat_toNat_self] at hcounted
  refine Iff.trans (exists_congr fun fuel => ?_) hcounted
  rw [strncopy, if_neg hne, if_neg hge]
  exact then_pure

/-- Where the count ends, the loop looks at the source, and at a NUL it goes on. -/
theorem ncopy_looks {body : Address → Code (Address ⊕ Unit)} {index next : Address}
    (hbody : body i = ncopy_turn dest src false i index next)
    (hkeeps : ∀ a j, Keeps (fun m => a ∈ m.accesses) (body j))
    (h : Returns body .pending i m () m') :
    .read src i ∈ m'.accesses ∧
      (m.memory (src + i) = 0#8 → .read src index ∈ m'.accesses ∧ .write dest index ∈ m'.accesses) := by
  by_cases hnul : m.memory (src + i) = 0#8
  · rw [returns_next (hbody ▸ ncopy_goes_on hnul)] at h
    have hmem (a) (ha : a ∈ m.accesses ++ [.read src i] ++ [.read src index, .write dest index]) :
        a ∈ m'.accesses := h.keeps (hkeeps a) ha
    exact ⟨hmem _ (by simp), fun _ => ⟨hmem _ (by simp), hmem _ (by simp)⟩⟩
  · rw [returns_last (hbody ▸ ncopy_ends hnul)] at h
    rw [h.2]
    exact ⟨by simp, fun hzero => absurd hzero hnul⟩

/-- The accesses of a copy of `num` bytes and of the look at `src[i]`. -/
theorem ncopy_inside {is : List Address} (his : ∀ j ∈ is, j < num) (hnum : ∀ j < num, j ≤ n) (hi : i ≤ n) :
    Confined ((is.foldl (copied dest src) ⟨memory, []⟩).accesses ++ [.read src i]) dest src n (· < num) where
  reads j hj := by
    rw [List.mem_append, mem_copied_accesses, List.mem_singleton] at hj
    obtain (hnone | ⟨j', hj', heq | heq⟩) | heq := hj
    · exact absurd hnone List.not_mem_nil
    all_goals cases heq
    · exact hnum j (his j hj')
    · exact hi
  writes p j hj := by
    rw [List.mem_append, mem_copied_accesses, List.mem_singleton] at hj
    obtain (hnone | ⟨j', hj', heq | heq⟩) | heq := hj
    · exact absurd hnone List.not_mem_nil
    all_goals cases heq
    exact ⟨rfl, his j hj'⟩

theorem strncopy_up_iff (hsrc : StringAt memory src n) (hsep : Separate dest src n) (hlt : dest < src) :
    StrncopyOk memory dest src n num ↔ num < n := by
  have hup := hsep.distances.1
  have hbody : ncopy_up dest src num num = ncopy_turn dest src false num num (num + 1#32) := by
    rw [ncopy_up, decide_eq_false (BitVec.lt_irrefl num)]
  have hmemory (hle : num ≤ n) : ((indices num.toNat).foldl (copied dest src) ⟨memory, []⟩).memory (src + num) =
      memory (src + num) := by
    rw [BitVec.le_def] at hle
    rw [copied_up (by omega), hsep.moved_src (by omega) (BitVec.le_def.mpr hle)]
  refine ⟨fun ⟨fuel, m', hrun, hconfined, _⟩ => ?_, fun hless => ?_⟩
  · have hreturns := (strncopy_up hlt).mp ⟨fuel, hrun⟩
    obtain ⟨hlook, hnul⟩ := ncopy_looks hbody (fun _ _ => ncopy_keeps) hreturns
    have hle := hconfined.reads _ hlook
    refine BitVec.not_le.mp fun hge => ?_
    obtain rfl : num = n := BitVec.le_antisymm hle hge
    rw [hmemory hle] at hnul
    exact BitVec.lt_irrefl num (hconfined.writes _ _ (hnul hsrc.nul).2).2
  · have hle := BitVec.le_of_lt hless
    have hchar := hmemory hle ▸ hsrc.before num hless
    obtain ⟨fuel, hrun⟩ := (strncopy_up hlt).mpr ((returns_last (hbody ▸ ncopy_ends hchar)).mpr ⟨rfl, rfl⟩)
    refine ⟨fuel, _, hrun, ncopy_inside (fun j hj => ?_) (fun j hj => ?_) hle, fun i hi _ => ?_⟩
    · exact (mem_indices num.isLt.le).mp hj
    · exact BitVec.le_of_lt (BitVec.lt_trans hj hless)
    · rw [BitVec.lt_def] at hless
      show Machine.memory _ _ = _
      rw [copied_up (by omega), moved_at memory hi]

theorem strncopy_down_iff (hsrc : StringAt memory src n) (hsep : Separate dest src n) (hge : ¬ dest < src) :
    StrncopyOk memory dest src n num ↔ 0#32 < n ∧ num ≤ n + 1#32 := by
  obtain ⟨-, hdown, hshort⟩ := hsep.distances
  have hsucc : (n + 1#32).toNat = n.toNat + 1 := BitVec.toNat_add_of_lt hshort
  have hbody : ncopy_down dest src 0#32 = ncopy_turn dest src false 0#32 (0#32 - 1#32) (0#32 - 1#32) := rfl
  have hmemory (hle : num ≤ n + 1#32) :
      ((indices num.toNat).reverse.foldl (copied dest src) ⟨memory, []⟩).memory (src + 0#32) =
        memory (src + 0#32) := by
    rw [BitVec.le_def] at hle
    rw [copied_down (by omega), hsep.moved_src (by omega) (zero_le_address n)]
  refine ⟨fun ⟨fuel, m', hrun, hconfined, _⟩ => ?_, fun ⟨hpos, hle⟩ => ?_⟩
  · have hreturns := (strncopy_down hsep.ne hge).mp ⟨fuel, hrun⟩
    have hle : num ≤ n + 1#32 := by
      by_contra hlt
      rw [BitVec.not_le] at hlt
      have hpred := toNat_pred hlt
      rw [BitVec.lt_def] at hlt
      have hmem : num - 1#32 ∈ (indices num.toNat).reverse :=
        List.mem_reverse.mpr ((mem_indices num.isLt.le).mpr (by omega))
      have hread := hreturns.keeps (fun _ => ncopy_keeps) (mem_copied_accesses.mpr (.inr ⟨_, hmem, .inl rfl⟩))
      have hlast := hconfined.reads _ hread
      rw [BitVec.le_def] at hlast
      omega
    refine ⟨BitVec.not_le.mp fun hzero => ?_, hle⟩
    obtain rfl : n = 0#32 := BitVec.le_antisymm hzero (zero_le_address n)
    have hread := ((ncopy_looks hbody (fun _ _ => ncopy_keeps) hreturns).2 (hmemory hle ▸ hsrc.nul)).1
    exact absurd (hconfined.reads _ hread) (by decide)
  · have hchar := hmemory hle ▸ hsrc.before 0#32 hpos
    obtain ⟨fuel, hrun⟩ :=
      (strncopy_down hsep.ne hge).mpr ((returns_last (hbody ▸ ncopy_ends hchar)).mpr ⟨rfl, rfl⟩)
    rw [BitVec.le_def] at hle
    refine ⟨fuel, _, hrun, ncopy_inside (fun j hj => ?_) (fun j hj => ?_) (zero_le_address n), fun i hi _ => ?_⟩
    · exact (mem_indices num.isLt.le).mp (List.mem_reverse.mp hj)
    · rw [BitVec.lt_def] at hj
      rw [BitVec.le_def]
      omega
    · show Machine.memory _ _ = _
      rw [copied_down (by omega), moved_at memory hi]

/-- When `strcopy` and `strncopy` are right: the first depends on the old bytes of the destination, the second
on the order of the pointers. -/
theorem string_copies_iff (hsrc : StringAt memory src n) (hsep : Separate dest src n) :
    (StrcopyOk memory dest src n ↔ memory (dest + n) = 0#8 ∨ StringAt memory dest (n + 1#32)) ∧
      ∀ num, StrncopyOk memory dest src n num ↔
        dest < src ∧ num < n ∨ ¬ dest < src ∧ 0#32 < n ∧ num ≤ n + 1#32 := by
  refine ⟨strcopy_ok_iff hsrc hsep, fun num => ?_⟩
  by_cases hlt : dest < src
  · rw [strncopy_up_iff hsrc hsep hlt]
    exact ⟨fun h => .inl ⟨hlt, h⟩, fun h => (h.resolve_right fun h => h.1 hlt).2⟩
  · rw [strncopy_down_iff hsrc hsep hlt]
    exact ⟨fun h => .inr ⟨hlt, h⟩, fun h => (h.resolve_left fun h => hlt h.1).2⟩

/-- "A" at 0x2000, and `old` behind the NUL at 0x1000. -/
def letter_memory (old : Byte) (a : Address) : Byte :=
  if a = 0x2000#32 then 0x41#8 else if a = 0x1001#32 then old else 0#8

theorem letter_string (old : Byte) : StringAt (letter_memory old) 0x2000#32 1#32 where
  nul := rfl
  before i hi := by
    obtain rfl : i = 0#32 := by bv_omega
    show 0x41#8 ≠ 0#8
    decide

theorem letter_separate : Separate 0x1000#32 0x2000#32 1#32 := fun i hi j hj heq => by bv_omega

/-- "ABC" at 0x2000, and zeros. -/
def text_memory (a : Address) : Byte :=
  if a = 0x2000#32 then 0x41#8 else if a = 0x2001#32 then 0x42#8 else if a = 0x2002#32 then 0x43#8 else 0#8

theorem text_string : StringAt text_memory 0x2000#32 3#32 where
  nul := rfl
  before i hi := by
    obtain rfl | rfl | rfl : i = 0#32 ∨ i = 1#32 ∨ i = 2#32 := by bv_omega
    all_goals decide

/-- Copies of the string over zeros: of all of it, of its first two characters to below, and to above of all of
it with its NUL. -/
theorem string_copies_iff_text : StrcopyOk text_memory 0x1000#32 0x2000#32 3#32 ∧
    StrncopyOk text_memory 0x1000#32 0x2000#32 3#32 2#32 ∧
    StrncopyOk text_memory 0x3000#32 0x2000#32 3#32 4#32 := by
  have hbelow : Separate 0x1000#32 0x2000#32 3#32 := fun i hi j hj heq => by bv_omega
  have habove : Separate 0x3000#32 0x2000#32 3#32 := fun i hi j hj heq => by bv_omega
  exact ⟨(string_copies_iff text_string hbelow).1.mpr (.inl rfl),
    ((string_copies_iff text_string hbelow).2 2#32).mpr (.inl (by decide)),
    ((string_copies_iff text_string habove).2 4#32).mpr (.inr (by decide))⟩

/-- An empty string with an old byte behind it is at the destination: the copy of "A" has no NUL. And
`strncopy` of the one character goes on at the NUL. -/
theorem string_copies_old_byte : ¬ StrcopyOk (letter_memory 0x42#8) 0x1000#32 0x2000#32 1#32 ∧
    ¬ StrncopyOk (letter_memory 0x42#8) 0x1000#32 0x2000#32 1#32 1#32 := by
  refine ⟨fun h => ?_, fun h => ?_⟩
  · obtain hnul | hstring := (strcopy_ok_iff (letter_string 0x42#8) letter_separate).mp h
    · exact absurd hnul (by decide)
    · exact hstring.before 0#32 (by decide) rfl
  · exact absurd ((strncopy_up_iff (letter_string 0x42#8) letter_separate (by decide)).mp h) (by decide)

end Condor.Libc
