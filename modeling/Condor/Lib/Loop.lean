import Mathlib.Data.List.Basic
import Mathlib.Logic.Function.Basic

/-!
# Counted loops

`forUp lo hi s body` is `for (i = lo; i < hi; i++) body`, threading the state
`s` through a monad whose failure is the loop's early exit. `forWhile` adds a
guard on the index that leaves the loop (`break`) the first time it fails.
`loop` is the pure form. The lemmas are the two unfoldings, the invariant
rules, and the flattening of a loop whose body folds over a list.
-/

namespace Condor.Lib

universe u

/-- A guard that holds exactly below `c` shortens the range to `c`. -/
theorem takeWhile_range' (lo hi c : Nat) :
    (List.range' lo (hi - lo)).takeWhile (fun i => decide (i < c)) =
      List.range' lo (min hi c - lo) := by
  generalize hk : hi - lo = k
  induction k generalizing lo with
  | zero => rw [show min hi c - lo = 0 by omega, List.range'_zero, List.takeWhile_nil]
  | succ k ih =>
    rw [List.range'_succ, List.takeWhile_cons]
    by_cases hc : lo < c
    · obtain ⟨j, hj⟩ : ∃ j, min hi c - lo = j + 1 := ⟨min hi c - lo - 1, by omega⟩
      rw [if_pos (by simpa using hc), ih (lo + 1) (by omega), hj, List.range'_succ,
        show min hi c - (lo + 1) = j by omega]
    · rw [if_neg (by simpa using hc), show min hi c - lo = 0 by omega, List.range'_zero]

section Monadic

variable {m : Type u → Type u} [Monad m] {σ α : Type u}

/-- `for (i = lo; i < hi; i++) body`. -/
def forUp (lo hi : Nat) (s : σ) (body : Nat → σ → m σ) : m σ :=
  (List.range' lo (hi - lo)).foldlM (fun s i => body i s) s

/-- `for (i = lo; i < hi; i++) { if (!guard(i)) break; body }`. -/
def forWhile (lo hi : Nat) (guard : Nat → Bool) (s : σ) (body : Nat → σ → m σ) : m σ :=
  ((List.range' lo (hi - lo)).takeWhile guard).foldlM (fun s i => body i s) s

/-- A fold over an initial range is a loop. -/
theorem forUp_eq_foldlM (n : Nat) (s : σ) (body : Nat → σ → m σ) :
    forUp 0 n s body = (List.range' 0 n).foldlM (fun s i => body i s) s := rfl

theorem forUp_of_le {lo hi : Nat} (h : hi ≤ lo) (s : σ) (body : Nat → σ → m σ) :
    forUp lo hi s body = pure s := by
  simp [forUp, Nat.sub_eq_zero_of_le h]

theorem forUp_of_lt {lo hi : Nat} (h : lo < hi) (s : σ) (body : Nat → σ → m σ) :
    forUp lo hi s body = body lo s >>= fun s' => forUp (lo + 1) hi s' body := by
  obtain ⟨k, hk⟩ : ∃ k, hi - lo = k + 1 := ⟨hi - lo - 1, by omega⟩
  simp only [forUp, hk, List.range'_succ, List.foldlM_cons]
  rw [show hi - (lo + 1) = k by omega]

theorem forUp_append [LawfulMonad m] {lo mid hi : Nat} (h1 : lo ≤ mid) (h2 : mid ≤ hi) (s : σ)
    (body : Nat → σ → m σ) :
    forUp lo hi s body = forUp lo mid s body >>= fun s' => forUp mid hi s' body := by
  simp only [forUp]
  rw [← List.foldlM_append, show hi - lo = (mid - lo) + (hi - mid) by omega,
    ← List.range'_append_1, show lo + (mid - lo) = mid by omega]

theorem forUp_succ [LawfulMonad m] {lo hi : Nat} (h : lo ≤ hi) (s : σ) (body : Nat → σ → m σ) :
    forUp lo (hi + 1) s body = forUp lo hi s body >>= body hi := by
  rw [forUp_append h (Nat.le_succ hi)]
  congr 1
  funext s'
  rw [forUp_of_lt (Nat.lt_succ_self hi)]
  simp [forUp_of_le]

theorem forWhile_lt (lo hi c : Nat) (s : σ) (body : Nat → σ → m σ) :
    forWhile lo hi (fun i => decide (i < c)) s body = forUp lo (min hi c) s body := by
  rw [forWhile, forUp, takeWhile_range']

/-- Folding over the concatenation of the lists `f a` is folding over each in turn. -/
theorem foldlM_flatMap [LawfulMonad m] {β : Type u} {ι : Type} (g : σ → β → m σ) (f : ι → List β)
    (l : List ι) (s : σ) :
    (l.flatMap f).foldlM g s = l.foldlM (fun s a => (f a).foldlM g s) s := by
  induction l generalizing s with
  | nil => rfl
  | cons a l ih => simp only [List.flatMap_cons, List.foldlM_append, List.foldlM_cons, ih]

/-- A loop whose body folds over a list per index is one fold. -/
theorem forUp_flatMap [LawfulMonad m] {β : Type u} (g : σ → β → m σ) (f : Nat → List β)
    (lo hi : Nat) (s : σ) :
    forUp lo hi s (fun i s => (f i).foldlM g s) = ((List.range' lo (hi - lo)).flatMap f).foldlM g s := by
  rw [foldlM_flatMap, forUp]

theorem forUp_foldlM [LawfulMonad m] {β : Type u} (g : σ → β → m σ) (f : Nat → List β)
    (n : Nat) (s : σ) :
    forUp 0 n s (fun i s => (f i).foldlM g s) = ((List.range' 0 n).flatMap f).foldlM g s :=
  forUp_flatMap g f 0 n s

theorem forUp_congr {lo hi : Nat} {s : σ} {b1 b2 : Nat → σ → m σ}
    (h : ∀ i, lo ≤ i → i < hi → ∀ s, b1 i s = b2 i s) : forUp lo hi s b1 = forUp lo hi s b2 := by
  induction hk : hi - lo generalizing lo s with
  | zero => rw [forUp_of_le (by omega), forUp_of_le (by omega)]
  | succ k ih =>
    rw [forUp_of_lt (by omega), forUp_of_lt (by omega), h lo (Nat.le_refl lo) (by omega) s]
    congr 1
    funext s'
    exact ih (fun i h1 h2 => h i (by omega) h2) (by omega)

/-- A loop whose body does nothing. -/
theorem forUp_pure [LawfulMonad m] {lo hi : Nat} {body : Nat → σ → m σ}
    (h : ∀ i, lo ≤ i → i < hi → ∀ s, body i s = pure s) (s : σ) : forUp lo hi s body = pure s := by
  have hcongr : forUp lo hi s body = forUp lo hi s fun _ s => pure s := forUp_congr h
  rw [hcongr, forUp]
  induction List.range' lo (hi - lo) with
  | nil => rfl
  | cons i l ih => rw [List.foldlM_cons, pure_bind, ih]

end Monadic

/-! ## Loops that may stop with an error -/

/-- Peel one computation off a successful one. -/
theorem bind_eq_ok {ε α β : Type u} {x : Except ε α} {f : α → Except ε β} {r : β} :
    x >>= f = .ok r ↔ ∃ a, x = .ok a ∧ f a = .ok r := by
  cases x with
  | error e => simp [Bind.bind, Except.bind]
  | ok a => simp [Bind.bind, Except.bind]

/-- The same for a computation whose outcome was evaluated. -/
theorem bind_toOption_eq_some {ε α β : Type u} {x : Except ε α} {f : α → Except ε β} {r : β} :
    (x >>= f).toOption = some r ↔ ∃ a, x = .ok a ∧ (f a).toOption = some r := by
  cases x with
  | error e => simp [Bind.bind, Except.bind, Except.toOption]
  | ok a => simp [Bind.bind, Except.bind]

section Except

variable {ε σ : Type u} {lo hi : Nat} {s s' : σ} {body : Nat → σ → Except ε σ}

/-- The invariant rule: `I i` holds before iteration `i`. -/
theorem forUp_inv {I : Nat → σ → Prop} (hle : lo ≤ hi) (h0 : I lo s)
    (hstep : ∀ i t t', lo ≤ i → i < hi → I i t → body i t = .ok t' → I (i + 1) t')
    (h : forUp lo hi s body = .ok s') : I hi s' := by
  induction hk : hi - lo generalizing lo s with
  | zero =>
    rw [forUp_of_le (by omega)] at h
    cases h
    rwa [show hi = lo by omega]
  | succ k ih =>
    rw [forUp_of_lt (by omega)] at h
    cases hb : body lo s with
    | error e => rw [hb] at h; cases h
    | ok t =>
      rw [hb] at h
      exact ih (by omega) (hstep lo s t (Nat.le_refl lo) (by omega) h0 hb)
        (fun i t t' h1 h2 => hstep i t t' (by omega) h2) h (by omega)

/-- A predicate every iteration keeps survives the loop. -/
theorem forUp_keeps {P : σ → Prop} (h0 : P s)
    (hstep : ∀ i t t', lo ≤ i → i < hi → P t → body i t = .ok t' → P t')
    (h : forUp lo hi s body = .ok s') : P s' := by
  by_cases hle : lo ≤ hi
  · exact forUp_inv (I := fun _ => P) hle h0 hstep h
  · rw [forUp_of_le (by omega)] at h
    cases h
    exact h0

/-- A loop whose iterations all succeed under an invariant succeeds. -/
theorem forUp_total {I : Nat → σ → Prop} (hle : lo ≤ hi) (h0 : I lo s)
    (hstep : ∀ i t, lo ≤ i → i < hi → I i t → ∃ t', body i t = .ok t' ∧ I (i + 1) t') :
    ∃ s', forUp lo hi s body = .ok s' ∧ I hi s' := by
  induction hk : hi - lo generalizing lo s with
  | zero => exact ⟨s, forUp_of_le (by omega) .., by rwa [show hi = lo by omega]⟩
  | succ k ih =>
    obtain ⟨t, ht, hI⟩ := hstep lo s (Nat.le_refl lo) (by omega) h0
    obtain ⟨s', hs', hI'⟩ := ih (by omega) hI (fun i t h1 h2 => hstep i t (by omega) h2) (by omega)
    refine ⟨s', ?_, hI'⟩
    rw [forUp_of_lt (by omega), ht]
    exact hs'

/-- A predicate every step keeps survives a fold. -/
theorem foldlM_keeps {α : Type u} {P : σ → Prop} {f : σ → α → Except ε σ} {l : List α} (h0 : P s)
    (hstep : ∀ t t' a, a ∈ l → P t → f t a = .ok t' → P t') (h : l.foldlM f s = .ok s') : P s' := by
  induction l generalizing s with
  | nil => cases h; exact h0
  | cons a l ih =>
    rw [List.foldlM_cons] at h
    obtain ⟨t, ht, hl⟩ := bind_eq_ok.mp h
    exact ih (hstep s t a (by simp) h0 ht) (fun t t' a ha => hstep t t' a (by simp [ha])) hl

end Except

/-! ## Pure loops -/

section Pure

variable {σ : Type u}

/-- `for (i = lo; i < hi; i++) body` without early exits. -/
def loop (lo hi : Nat) (s : σ) (body : Nat → σ → σ) : σ :=
  (List.range' lo (hi - lo)).foldl (fun s i => body i s) s

/-- `loop` with a guard that leaves it the first time it fails. -/
def loopWhile (lo hi : Nat) (guard : Nat → Bool) (s : σ) (body : Nat → σ → σ) : σ :=
  ((List.range' lo (hi - lo)).takeWhile guard).foldl (fun s i => body i s) s

theorem loopWhile_lt (lo hi c : Nat) (s : σ) (body : Nat → σ → σ) :
    loopWhile lo hi (fun i => decide (i < c)) s body = loop lo (min hi c) s body := by
  rw [loopWhile, loop, takeWhile_range']

theorem loop_of_le {lo hi : Nat} (h : hi ≤ lo) (s : σ) (body : Nat → σ → σ) :
    loop lo hi s body = s := by
  simp [loop, Nat.sub_eq_zero_of_le h]

theorem loop_of_lt {lo hi : Nat} (h : lo < hi) (s : σ) (body : Nat → σ → σ) :
    loop lo hi s body = loop (lo + 1) hi (body lo s) body := by
  obtain ⟨k, hk⟩ : ∃ k, hi - lo = k + 1 := ⟨hi - lo - 1, by omega⟩
  simp only [loop, hk, List.range'_succ, List.foldl_cons]
  rw [show hi - (lo + 1) = k by omega]

theorem loop_succ {lo hi : Nat} (h : lo ≤ hi) (s : σ) (body : Nat → σ → σ) :
    loop lo (hi + 1) s body = body hi (loop lo hi s body) := by
  simp only [loop]
  rw [show hi + 1 - lo = (hi - lo) + 1 by omega, List.range'_1_concat, List.foldl_append,
    show lo + (hi - lo) = hi by omega]
  rfl

theorem loop_inv {lo hi : Nat} {s : σ} {body : Nat → σ → σ} {I : Nat → σ → Prop} (hle : lo ≤ hi)
    (h0 : I lo s) (hstep : ∀ i t, lo ≤ i → i < hi → I i t → I (i + 1) (body i t)) :
    I hi (loop lo hi s body) := by
  induction hk : hi - lo generalizing lo s with
  | zero =>
    rw [loop_of_le (by omega)]
    rwa [show hi = lo by omega]
  | succ k ih =>
    rw [loop_of_lt (by omega)]
    exact ih (by omega) (hstep lo s (Nat.le_refl lo) (by omega) h0)
      (fun i t h1 h2 => hstep i t (by omega) h2) (by omega)

theorem loop_keeps {lo hi : Nat} {s : σ} {body : Nat → σ → σ} {P : σ → Prop} (h0 : P s)
    (hstep : ∀ i t, lo ≤ i → i < hi → P t → P (body i t)) : P (loop lo hi s body) := by
  by_cases hle : lo ≤ hi
  · exact loop_inv (I := fun _ => P) hle h0 hstep
  · rwa [loop_of_le (by omega)]

/-- A relation that corresponding passes keep. -/
theorem loop_relates {τ : Type u} {R : σ → τ → Prop} {lo hi : Nat} {s : σ} {t : τ} {f : Nat → σ → σ}
    {g : Nat → τ → τ} (h : R s t) (hstep : ∀ i s t, lo ≤ i → i < hi → R s t → R (f i s) (g i t)) :
    R (loop lo hi s f) (loop lo hi t g) := by
  induction hk : hi - lo generalizing lo s t with
  | zero =>
    rw [loop_of_le (by omega), loop_of_le (by omega)]
    exact h
  | succ k ih =>
    have hlt : lo < hi := by omega
    rw [loop_of_lt hlt, loop_of_lt hlt]
    exact ih (hstep lo s t (Nat.le_refl lo) hlt h) (fun i s t hlow hhigh => hstep i s t (by omega) hhigh)
      (by omega)

end Pure

end Condor.Lib
