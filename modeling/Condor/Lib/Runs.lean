import Mathlib.Data.List.Induction
import Mathlib.Logic.Relation

/-!
# Labelled runs

`Run Step s es s'` goes from `s` to `s'` by steps with the labels `es`, and
`Within Step C` has the steps of `Step` that are taken under a condition on the
state before and the label. `Run.inv` is the induction over a run, `Run.project`
forgets the labels along a projection of the states, and `Run.of_foldlM` makes a run
from a function that computes steps. Where a function gives the only step, `Always`
says that something holds in every state of a run, and `Under` that all its steps are
taken under a condition; `always_iff` is the induction that joins them.
-/

namespace Condor.Lib

variable {σ τ ε : Type}

inductive Run (Step : σ → ε → σ → Prop) (s : σ) : List ε → σ → Prop
  | nil : Run Step s [] s
  | snoc {s' s'' : σ} {es : List ε} {e : ε} (h : Run Step s es s') (hs : Step s' e s'') :
      Run Step s (es ++ [e]) s''

/-- The steps whose label `C` allows in the state before. -/
def Within (Step : σ → ε → σ → Prop) (C : σ → ε → Prop) (s : σ) (e : ε) (s' : σ) : Prop :=
  C s e ∧ Step s e s'

variable {Step : σ → ε → σ → Prop} {s s' : σ} {es : List ε}

/-- What holds at the start and is kept by every step holds at the end. -/
theorem Run.inv {I : σ → Prop} (hI : ∀ s e s', I s → Step s e s' → I s') (h : Run Step s es s')
    (hs : I s) :
    I s' := by
  induction h with
  | nil => exact hs
  | snoc h hstep ih => exact hI _ _ _ ih hstep

theorem Run.mono {Step' : σ → ε → σ → Prop} (hstep : ∀ s e s', Step s e s' → Step' s e s')
    (h : Run Step s es s') : Run Step' s es s' := by
  induction h with
  | nil => exact .nil
  | snoc _ hs ih => exact ih.snoc (hstep _ _ _ hs)

/-- A run as a run of another system. `J` is an invariant that the steps may use. -/
theorem Run.simulates {Step' : τ → ε → τ → Prop} {f : σ → τ} {J : σ → Prop}
    (hstep : ∀ s e s', J s → Step s e s' → J s' ∧ Step' (f s) e (f s')) (h : Run Step s es s') (hs : J s) :
    J s' ∧ Run Step' (f s) es (f s') := by
  induction h with
  | nil => exact ⟨hs, .nil⟩
  | snoc _ hlast ih =>
    obtain ⟨hJ, hrun⟩ := ih
    obtain ⟨hJ', hlast'⟩ := hstep _ _ _ hJ hlast
    exact ⟨hJ', hrun.snoc hlast'⟩

theorem Run.project {R : τ → τ → Prop} {f : σ → τ}
    (hR : ∀ s e s', Step s e s' → Relation.ReflTransGen R (f s) (f s')) (h : Run Step s es s') :
    Relation.ReflTransGen R (f s) (f s') := by
  induction h with
  | nil => exact .refl
  | snoc h hstep ih => exact ih.trans (hR _ _ _ hstep)

/-- A run of a function that computes steps. -/
theorem Run.of_foldlM {next : σ → ε → Option σ} (hnext : ∀ s e s', next s e = some s' → Step s e s')
    (h : es.foldlM next s = some s') : Run Step s es s' := by
  induction es using List.reverseRecOn generalizing s' with
  | nil =>
    cases h
    exact .nil
  | append_singleton es e ih =>
    rw [List.foldlM_append, Option.bind_eq_bind, Option.bind_eq_some_iff] at h
    obtain ⟨s₁, hs₁, hlast⟩ := h
    rw [List.foldlM_cons, Option.bind_eq_bind, Option.bind_eq_some_iff] at hlast
    obtain ⟨s₂, hs₂, hnil⟩ := hlast
    cases hnil
    exact (ih hs₁).snoc (hnext _ _ _ hs₂)

/-! ## Runs of a function -/

section
variable {next : σ → ε → σ} {P : σ → Prop} {C : σ → ε → Prop}

/-- `P` holds in every state that the labels lead through. -/
def Always (next : σ → ε → σ) (P : σ → Prop) : σ → List ε → Prop
  | s, [] => P s
  | s, e :: es => P s ∧ Always next P (next s e) es

/-- Every step that the labels make is taken under `C`. -/
def Under (next : σ → ε → σ) (C : σ → ε → Prop) : σ → List ε → Prop
  | _, [] => True
  | s, e :: es => C s e ∧ Under next C (next s e) es

/-- If a step keeps `P` exactly under `C`, then so does a run. -/
theorem always_iff (hstep : ∀ s e, P s → (P (next s e) ↔ C s e)) (s : σ) (es : List ε) :
    Always next P s es ↔ P s ∧ Under next C s es := by
  induction es generalizing s with
  | nil => exact (and_iff_left trivial).symm
  | cons e es ih =>
    refine and_congr_right fun hs => ?_
    rw [ih, hstep s e hs]
    rfl

end

end Condor.Lib
