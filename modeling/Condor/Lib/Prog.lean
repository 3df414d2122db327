import Mathlib.Tactic.Common

/-!
# Programs that may stop

`Prog ε σ α` runs on a state of type `σ` and returns an `α` or stops with an `ε`.
The state it reached is kept in both cases, so that a program that stops can
still be asked what it has done. `Triple P x Q E` are its pre- and postconditions,
`Total P x Q` those of a program that returns, `Keeps I x` an invariant of all its
runs. `iterate` is a loop with fuel: its invariant rule is `Triple.iterate`, and
`iterate_fuel` says that more fuel than the loop's measure changes nothing. `Returns`
is a loop that may not end, followed turn by turn (`returns_next`, `returns_last`).
`Ends E x s Q` is about the run from one state: it may stop with what `E` allows.
-/

namespace Condor.Lib

/-- A program on states `σ` that returns or stops. -/
structure Prog (ε σ α : Type) where
  run : σ → Except ε α × σ

namespace Prog

variable {ε σ α β γ : Type}

def bind (x : Prog ε σ α) (f : α → Prog ε σ β) : Prog ε σ β where
  run s :=
    match x.run s with
    | (.ok a, s') => (f a).run s'
    | (.error e, s') => (.error e, s')

instance : Monad (Prog ε σ) where
  pure a := ⟨fun s => (.ok a, s)⟩
  bind := bind

def get : Prog ε σ σ := ⟨fun s => (.ok s, s)⟩

def modify (f : σ → σ) : Prog ε σ Unit := ⟨fun s => (.ok (), f s)⟩

def stop (e : ε) : Prog ε σ α := ⟨fun s => (.error e, s)⟩

/-- Runs `body` from `a` until it answers `inr`, at most `n` times. -/
def iterate (body : α → Prog ε σ (α ⊕ β)) (out : ε) : Nat → α → Prog ε σ β
  | 0, _ => stop out
  | n + 1, a => do
    match ← body a with
    | .inl a' => iterate body out n a'
    | .inr b => pure b

theorem pure_run (a : α) (s : σ) : (pure a : Prog ε σ α).run s = (.ok a, s) := rfl

theorem get_run (s : σ) : (get : Prog ε σ σ).run s = (.ok s, s) := rfl

theorem stop_run (e : ε) (s : σ) : (stop e : Prog ε σ α).run s = (.error e, s) := rfl

theorem bind_run (x : Prog ε σ α) (f : α → Prog ε σ β) (s : σ) :
    (x >>= f).run s =
      match x.run s with
      | (.ok a, s') => (f a).run s'
      | (.error e, s') => (.error e, s') := rfl

theorem ite_run {c : Prop} [Decidable c] (x y : Prog ε σ α) (s : σ) :
    (if c then x else y).run s = if c then x.run s else y.run s := apply_ite (·.run s) c x y

theorem bind_ok {x : Prog ε σ α} {f : α → Prog ε σ β} {s s' : σ} {a : α} (h : x.run s = (.ok a, s')) :
    (x >>= f).run s = (f a).run s' := by
  rw [bind_run, h]

/-- A run from its result alone. -/
theorem run_of_result {x : Prog ε σ α} {s : σ} {a : α} (h : (x.run s).1.toOption = some a) :
    x.run s = (.ok a, (x.run s).2) := by
  cases hx : x.run s with
  | mk r s' =>
    rw [hx] at h
    cases r with
    | ok b =>
      cases h
      rfl
    | error e => cases h

theorem bind_error {x : Prog ε σ α} {f : α → Prog ε σ β} {s s' : σ} {e : ε}
    (h : x.run s = (.error e, s')) : (x >>= f).run s = (.error e, s') := by
  rw [bind_run, h]

/-- A turn of a loop after which it goes on. -/
theorem iterate_next {body : α → Prog ε σ (α ⊕ β)} {out : ε} {n : Nat} {a a' : α} {s s' : σ}
    (h : (body a).run s = (.ok (.inl a'), s')) :
    (iterate body out (n + 1) a).run s = (iterate body out n a').run s' := bind_ok h

/-- Its last turn. -/
theorem iterate_last {body : α → Prog ε σ (α ⊕ β)} {out : ε} {n : Nat} {a : α} {b : β} {s s' : σ}
    (h : (body a).run s = (.ok (.inr b), s')) :
    (iterate body out (n + 1) a).run s = (.ok b, s') := bind_ok h

theorem bind_assoc (x : Prog ε σ α) (f : α → Prog ε σ β) (g : β → Prog ε σ γ) :
    x >>= f >>= g = x >>= fun a => f a >>= g := by
  refine congrArg Prog.mk (funext fun s => ?_)
  change (x >>= f >>= g).run s = (x >>= fun a => f a >>= g).run s
  cases h : x.run s with
  | mk r s' =>
    cases r with
    | ok a => rw [bind_run, bind_ok h, bind_ok h, bind_run]
    | error e => rw [bind_run, bind_error h, bind_error h]

theorem pure_bind (a : α) (f : α → Prog ε σ β) : (pure a : Prog ε σ α) >>= f = f a := rfl

theorem ite_bind {c : Prop} [Decidable c] (x y : Prog ε σ α) (f : α → Prog ε σ β) :
    (if c then x else y) >>= f = if c then x >>= f else y >>= f := apply_ite (· >>= f) c x y

/-! ## Pre- and postconditions -/

/-- From `P`, the program returns in `Q` or stops in `E`. -/
def Triple (P : σ → Prop) (x : Prog ε σ α) (Q : α → σ → Prop) (E : ε → σ → Prop) : Prop :=
  ∀ s, P s →
    match x.run s with
    | (.ok a, s') => Q a s'
    | (.error e, s') => E e s'

variable {P : σ → Prop} {Q : α → σ → Prop} {R : β → σ → Prop} {E : ε → σ → Prop} {x : Prog ε σ α}
  {f : α → Prog ε σ β}

theorem Triple.ok (h : Triple P x Q E) {s s' : σ} {a : α} (hs : P s) (hx : x.run s = (.ok a, s')) :
    Q a s' := by
  have := h s hs
  rwa [hx] at this

theorem Triple.error (h : Triple P x Q E) {s s' : σ} {e : ε} (hs : P s) (hx : x.run s = (.error e, s')) :
    E e s' := by
  have := h s hs
  rwa [hx] at this

/-- Both postconditions as one about the result. -/
theorem Triple.result {R : Except ε α → σ → Prop} (h : Triple P x (fun a => R (.ok a)) fun e => R (.error e))
    {s : σ} (hs : P s) : R (x.run s).1 (x.run s).2 := by
  cases hr : x.run s with
  | mk r s' =>
    cases r with
    | ok a => exact h.ok hs hr
    | error e => exact h.error hs hr

theorem Triple.of_run (hok : ∀ s a s', P s → x.run s = (.ok a, s') → Q a s')
    (herr : ∀ s e s', P s → x.run s = (.error e, s') → E e s') : Triple P x Q E := by
  intro s hs
  split
  · exact hok s _ _ hs (by assumption)
  · exact herr s _ _ hs (by assumption)

theorem Triple.pure {a : α} (h : ∀ s, P s → Q a s) : Triple P (pure a) Q E := h

theorem Triple.bind (hx : Triple P x Q E) (hf : ∀ a, Triple (Q a) (f a) R E) :
    Triple P (x >>= f) R E := by
  intro s hs
  cases hr : x.run s with
  | mk r s' =>
    cases r with
    | ok a =>
      rw [bind_ok hr]
      exact hf a s' (hx.ok hs hr)
    | error e =>
      rw [bind_error hr]
      exact hx.error hs hr

theorem Triple.get : Triple P (get : Prog ε σ σ) (fun a s => a = s ∧ P s) E := fun _ hs => ⟨rfl, hs⟩

theorem Triple.modify {Q : Unit → σ → Prop} {g : σ → σ} (h : ∀ s, P s → Q () (g s)) :
    Triple P (modify g) Q E := h

theorem Triple.stop {e : ε} (h : ∀ s, P s → E e s) : Triple P (stop e) Q E := h

theorem Triple.ite {c : Prop} [Decidable c] {y : Prog ε σ α} (hx : c → Triple P x Q E)
    (hy : ¬ c → Triple P y Q E) : Triple P (if c then x else y) Q E := by
  split
  · exact hx ‹_›
  · exact hy ‹_›

theorem Triple.before {P' : σ → Prop} (h : Triple P x Q E) (hP : ∀ s, P' s → P s) : Triple P' x Q E :=
  fun s hs => h s (hP s hs)

theorem Triple.after {Q' : α → σ → Prop} (h : Triple P x Q E) (hQ : ∀ a s, Q a s → Q' a s) :
    Triple P x Q' E :=
  .of_run (fun _ _ _ hs hx => hQ _ _ (h.ok hs hx)) fun _ _ _ hs hx => h.error hs hx

theorem Triple.stops {E' : ε → σ → Prop} (h : Triple P x Q E) (hE : ∀ e s, E e s → E' e s) :
    Triple P x Q E' :=
  .of_run (fun _ _ _ hs hx => h.ok hs hx) fun _ _ _ hs hx => hE _ _ (h.error hs hx)

theorem Triple.weaken {P' : σ → Prop} {Q' : α → σ → Prop} {E' : ε → σ → Prop} (h : Triple P x Q E)
    (hP : ∀ s, P' s → P s) (hQ : ∀ a s, Q a s → Q' a s)
    (hE : ∀ e s, E e s → E' e s) : Triple P' x Q' E' :=
  ((h.before hP).after hQ).stops hE

theorem Triple.and {P' : σ → Prop} {Q' : α → σ → Prop} {E' : ε → σ → Prop} (h : Triple P x Q E)
    (h' : Triple P' x Q' E') :
    Triple (fun s => P s ∧ P' s) x (fun a s => Q a s ∧ Q' a s) (fun e s => E e s ∧ E' e s) :=
  .of_run (fun _ _ _ hs hx => ⟨h.ok hs.1 hx, h'.ok hs.2 hx⟩)
    fun _ _ _ hs hx => ⟨h.error hs.1 hx, h'.error hs.2 hx⟩

theorem Triple.of_exists {ι : Type} {P : ι → σ → Prop} (h : ∀ i, Triple (P i) x Q E) :
    Triple (fun s => ∃ i, P i s) x Q E := fun s ⟨i, hs⟩ => h i s hs

/-- What holds of every state the program starts in may be assumed. -/
theorem Triple.assume {φ : Prop} (hφ : ∀ s, P s → φ) (h : φ → Triple P x Q E) : Triple P x Q E :=
  fun s hs => h (hφ s hs) s hs

/-- Each turn of a loop keeps its invariant, and ends in the postcondition if it is the last. -/
theorem Triple.iterate {body : α → Prog ε σ (α ⊕ β)} {out : ε} {I : α → σ → Prop}
    (hbody : ∀ a, Triple (I a) (body a) (fun r s => r.elim (I · s) (R · s)) E)
    (hout : ∀ a s, I a s → E out s) (n : Nat) (a : α) : Triple (I a) (iterate body out n a) R E := by
  induction n generalizing a with
  | zero => exact .stop (hout a)
  | succ n ih =>
    refine (hbody a).bind fun r => ?_
    cases r with
    | inl a' => exact ih a'
    | inr b => exact .pure fun s hs => hs

/-! ## Programs that return -/

/-- From `P`, the program returns, in `Q`. -/
def Total (P : σ → Prop) (x : Prog ε σ α) (Q : α → σ → Prop) : Prop := Triple P x Q fun _ _ => False

theorem Total.of_run (h : ∀ s, P s → ∃ a s', x.run s = (.ok a, s') ∧ Q a s') : Total P x Q := by
  intro s hs
  obtain ⟨a, s', hx, hq⟩ := h s hs
  rw [hx]
  exact hq

theorem Total.run (h : Total P x Q) {s : σ} (hs : P s) : ∃ a s', x.run s = (.ok a, s') ∧ Q a s' := by
  cases hr : x.run s with
  | mk r s' =>
    cases r with
    | ok a => exact ⟨a, s', rfl, Triple.ok h hs hr⟩
    | error e => exact (Triple.error h hs hr).elim

/-- A program that returns `a` goes on with it. -/
theorem Total.next {a : α} {P' : σ → Prop} (hx : Total P x fun r s => r = a ∧ P' s)
    (hf : Total P' (f a) R) : Total P (x >>= f) R := by
  refine Triple.bind hx fun r => Triple.assume (fun _ h => h.1) fun hr => ?_
  subst hr
  exact Triple.before hf fun _ h => h.2

theorem Total.pure {a : α} : Total P (pure a : Prog ε σ α) fun r s => r = a ∧ P s :=
  Triple.pure fun _ hs => ⟨rfl, hs⟩

/-! ## Invariants -/

/-- The program keeps `I`, whether it returns or stops. -/
def Keeps (I : σ → Prop) (x : Prog ε σ α) : Prop := Triple I x (fun _ => I) fun _ => I

variable {I : σ → Prop}

theorem Keeps.run (h : Keeps I x) {s : σ} (hs : I s) : I (x.run s).2 := by
  cases hr : x.run s with
  | mk r s' =>
    cases r with
    | ok a => exact Triple.ok h hs hr
    | error e => exact Triple.error h hs hr

/-- An invariant as pre- and postcondition, where it also says enough of a stop. -/
theorem Keeps.triple (hx : Keeps I x) (hE : ∀ e s, I s → E e s) : Triple I x (fun _ => I) E :=
  Triple.stops hx hE

/-- An invariant where nothing is asked of a stop. -/
theorem Keeps.returns (hx : Keeps I x) : Triple I x (fun _ => I) fun _ _ => True :=
  hx.triple fun _ _ _ => trivial

/-- A program that returns keeps its invariants. -/
theorem Total.and_keeps (h : Total P x Q) (hx : Keeps I x) :
    Total (fun s => P s ∧ I s) x fun a s => Q a s ∧ I s :=
  (Triple.and h hx).stops fun _ _ hs => hs.1

theorem Keeps.of_run (h : ∀ s, I s → I (x.run s).2) : Keeps I x :=
  Triple.of_run (fun s _ _ hs hx => by simpa [hx] using h s hs)
    fun s _ _ hs hx => by simpa [hx] using h s hs

theorem Keeps.pure (a : α) : Keeps I (pure a : Prog ε σ α) := Triple.pure fun _ hs => hs

theorem Keeps.bind (hx : Keeps I x) (hf : ∀ a, Keeps I (f a)) : Keeps I (x >>= f) := Triple.bind hx hf

theorem Keeps.get : Keeps I (get : Prog ε σ σ) := fun _ hs => hs

theorem Keeps.modify {g : σ → σ} (h : ∀ s, I s → I (g s)) : Keeps I (modify g : Prog ε σ Unit) :=
  Triple.modify h

theorem Keeps.stop (e : ε) : Keeps I (stop e : Prog ε σ α) := Triple.stop fun _ hs => hs

theorem Keeps.ite {c : Prop} [Decidable c] {y : Prog ε σ α} (hx : Keeps I x) (hy : Keeps I y) :
    Keeps I (if c then x else y) := Triple.ite (fun _ => hx) fun _ => hy

theorem Keeps.iterate {body : α → Prog ε σ (α ⊕ β)} {out : ε} (h : ∀ a, Keeps I (body a)) (n : Nat)
    (a : α) :
    Keeps I (iterate body out n a) :=
  Triple.iterate (fun a => (h a).weaken (fun _ hs => hs) (fun r _ hs => by cases r <;> exact hs) fun _ _ hs => hs)
    (fun _ _ hs => hs) n a

/-! ## Loops that return -/

/-- With enough fuel the loop returns `b`. -/
def Returns (body : α → Prog ε σ (α ⊕ β)) (out : ε) (a : α) (s : σ) (b : β) (s' : σ) : Prop :=
  ∃ n, (iterate body out n a).run s = (.ok b, s')

theorem returns_next {body : α → Prog ε σ (α ⊕ β)} {out : ε} {a a' : α} {b : β} {s s₁ s' : σ}
    (h : (body a).run s = (.ok (.inl a'), s₁)) :
    Returns body out a s b s' ↔ Returns body out a' s₁ b s' := by
  refine ⟨fun ⟨n, hn⟩ => ?_, fun ⟨n, hn⟩ => ⟨n + 1, (iterate_next h).trans hn⟩⟩
  cases n with
  | zero => cases hn
  | succ n => exact ⟨n, (iterate_next h).symm.trans hn⟩

theorem returns_last {body : α → Prog ε σ (α ⊕ β)} {out : ε} {a : α} {b c : β} {s s₁ s' : σ}
    (h : (body a).run s = (.ok (.inr b), s₁)) :
    Returns body out a s c s' ↔ c = b ∧ s' = s₁ := by
  refine ⟨fun ⟨n, hn⟩ => ?_, fun ⟨hc, hs⟩ => ⟨1, hc ▸ hs ▸ iterate_last h⟩⟩
  cases n with
  | zero => cases hn
  | succ n =>
    rw [iterate_last h] at hn
    cases hn
    exact ⟨rfl, rfl⟩

theorem Returns.keeps {body : α → Prog ε σ (α ⊕ β)} {out : ε} {a : α} {b : β} {s s' : σ}
    (h : Returns body out a s b s') (hbody : ∀ a, Keeps I (body a)) (hs : I s) : I s' := by
  obtain ⟨n, hn⟩ := h
  exact (Keeps.iterate hbody n a).ok hs hn

/-! ## Fuel -/

/-- A loop whose turns all lower `μ` needs no more than `μ + 1` fuel. -/
theorem iterate_fuel {body : α → Prog ε σ (α ⊕ β)} {out : ε} {μ : σ → Nat}
    (hdec : ∀ a s a' s', (body a).run s = (.ok (.inl a'), s') → μ s' < μ s) {n k : Nat} {a : α} {s : σ}
    (hn : μ s < n) (hk : μ s < k) : (iterate body out n a).run s = (iterate body out k a).run s := by
  induction n generalizing k a s with
  | zero => exact absurd hn (Nat.not_lt_zero _)
  | succ n ih =>
    cases k with
    | zero => exact absurd hk (Nat.not_lt_zero _)
    | succ k =>
      cases hr : (body a).run s with
      | mk r s' =>
        cases r with
        | error e => exact (bind_error hr).trans (bind_error hr).symm
        | ok r =>
          refine (bind_ok hr).trans (Eq.trans ?_ (bind_ok hr).symm)
          cases r with
          | inl a' =>
            have hlt := hdec a s a' s' hr
            exact ih (by omega) (by omega)
          | inr b => rfl

/-! ## Loops that count -/

/-- A loop with `k` turns: before turn `i` it is at `a i` in the state `t i`. -/
theorem iterate_steps {body : α → Prog ε σ (α ⊕ β)} {out : ε} {a : Nat → α} {t : Nat → σ} {b : β} {s' : σ}
    {k n : Nat} (hturn : ∀ i < k, (body (a i)).run (t i) = (.ok (.inl (a (i + 1))), t (i + 1)))
    (hlast : (body (a k)).run (t k) = (.ok (.inr b), s')) (hn : k < n) :
    (iterate body out n (a 0)).run (t 0) = (.ok b, s') := by
  induction k generalizing a t n with
  | zero =>
    obtain ⟨n, rfl⟩ : ∃ j, n = j + 1 := ⟨n - 1, by omega⟩
    exact iterate_last hlast
  | succ k ih =>
    obtain ⟨n, rfl⟩ : ∃ j, n = j + 1 := ⟨n - 1, by omega⟩
    have hrest := ih (a := fun i => a (i + 1)) (t := fun i => t (i + 1))
      (fun i hi => hturn (i + 1) (by omega)) hlast (by omega : k < n)
    exact (iterate_next (hturn 0 (by omega))).trans hrest

/-! ## The run from one state -/

/-- The run from `s` returns in `Q`, or stops with an error that `E` allows. -/
def Ends (E : ε → Prop) (x : Prog ε σ α) (s : σ) (Q : α → σ → Prop) : Prop :=
  Triple (fun t => t = s) x Q fun e _ => E e

section
variable {D : ε → Prop} {s s' : σ}

theorem Ends.of_ok {a : α} (h : x.run s = (.ok a, s')) (hQ : Q a s') : Ends D x s Q := by
  rintro t rfl
  rw [h]
  exact hQ

theorem Ends.of_error {e : ε} (h : x.run s = (.error e, s')) (hE : D e) : Ends D x s Q := by
  rintro t rfl
  rw [h]
  exact hE

theorem Ends.ok (h : Ends D x s Q) {a : α} (hx : x.run s = (.ok a, s')) : Q a s' := Triple.ok h rfl hx

theorem Ends.error (h : Ends D x s Q) {e : ε} (hx : x.run s = (.error e, s')) : D e := Triple.error h rfl hx

theorem Ends.pure {a : α} (h : Q a s) : Ends D (pure a) s Q := .of_ok rfl h

theorem Ends.bind (hx : Ends D x s Q) (hf : ∀ a s', Q a s' → Ends D (f a) s' R) : Ends D (x >>= f) s R :=
  Triple.bind hx fun a s' hs => hf a s' hs s' rfl

/-- A first part whose run is known. -/
theorem Ends.next {a : α} (h : x.run s = (.ok a, s')) (hf : Ends D (f a) s' R) : Ends D (x >>= f) s R := by
  rintro t rfl
  rw [bind_ok h]
  exact hf s' rfl

theorem Ends.imp {Q' : α → σ → Prop} (h : Ends D x s Q) (hQ : ∀ a s', Q a s' → Q' a s') : Ends D x s Q' :=
  Triple.after h hQ

/-- Where a program ends there is a run of it. -/
theorem Ends.run (h : Ends D x s Q) : Ends D x s fun a s' => x.run s = (.ok a, s') :=
  Triple.of_run (fun _ _ _ ht hx => ht ▸ hx) fun _ _ _ ht hx => h.error (ht ▸ hx)

theorem Ends.turn {body : α → Prog ε σ (α ⊕ β)} {out : ε} {n : Nat} {a : α} {T : α ⊕ β → σ → Prop}
    (h : Ends D (body a) s T) (hnext : ∀ a' s', T (.inl a') s' → Ends D (iterate body out n a') s' R)
    (hlast : ∀ b s', T (.inr b) s' → R b s') : Ends D (iterate body out (n + 1) a) s R :=
  h.bind fun r s' hr => by
    cases r with
    | inl a' => exact hnext a' s' hr
    | inr b => exact .pure (hlast b s' hr)

end

end Prog

end Condor.Lib
