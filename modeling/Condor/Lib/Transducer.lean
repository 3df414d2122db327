import Mathlib.Data.List.Basic

/-!
# Machines that answer their inputs

A machine is a step function `f : σ → ι → Option ω × σ`. `run` is the state
after a list of inputs, `outputs` the answers it gave. `simulation` carries a
relation between two machines from one step to all runs.
-/

namespace Condor.Lib.Transducer

variable {σ τ ι ω : Type} {f : σ → ι → Option ω × σ} {g : τ → ι → Option ω × τ} {s : σ} {t : τ}

def run (f : σ → ι → Option ω × σ) (s : σ) (is : List ι) : σ := is.foldl (fun s i => (f s i).2) s

def outputs (f : σ → ι → Option ω × σ) (s : σ) : List ι → List ω
  | [] => []
  | i :: is => (f s i).1.toList ++ outputs f (f s i).2 is

/-- Each step of a run meets `P`, a condition on its input and the state before it. -/
def Along (f : σ → ι → Option ω × σ) (P : σ → ι → Prop) (s : σ) : List ι → Prop
  | [] => True
  | i :: is => P s i ∧ Along f P (f s i).2 is

instance decidableAlong {P : σ → ι → Prop} [∀ s i, Decidable (P s i)] :
    ∀ (s : σ) (is : List ι), Decidable (Along f P s is)
  | _, [] => .isTrue trivial
  | s, i :: is =>
    have : Decidable (Along f P (f s i).2 is) := decidableAlong (f s i).2 is
    inferInstanceAs (Decidable (P s i ∧ Along f P (f s i).2 is))

@[simp] theorem run_nil : run f s [] = s := rfl

@[simp] theorem run_cons (i : ι) (is : List ι) : run f s (i :: is) = run f (f s i).2 is := rfl

theorem run_append (is js : List ι) : run f s (is ++ js) = run f (run f s is) js := List.foldl_append

theorem outputs_append (is js : List ι) :
    outputs f s (is ++ js) = outputs f s is ++ outputs f (run f s is) js := by
  induction is generalizing s with
  | nil => rfl
  | cons i is ih =>
    rw [List.cons_append, outputs, ih, ← List.append_assoc]
    rfl

theorem Along.append {P : σ → ι → Prop} {is js : List ι} :
    Along f P s (is ++ js) ↔ Along f P s is ∧ Along f P (run f s is) js := by
  induction is generalizing s with
  | nil => exact (iff_of_eq (true_and _)).symm
  | cons i is ih =>
    rw [List.cons_append, Along, ih, ← and_assoc]
    rfl

theorem Along.and {P Q : σ → ι → Prop} {is : List ι} (hP : Along f P s is) (hQ : Along f Q s is) :
    Along f (fun s i => P s i ∧ Q s i) s is := by
  induction is generalizing s with
  | nil => trivial
  | cons i is ih => exact ⟨⟨hP.1, hQ.1⟩, ih hP.2 hQ.2⟩

/-- A relation that each step keeps, under the condition `P`, is kept by runs, and the answers agree. -/
theorem simulation {R : σ → τ → Prop} {P : τ → ι → Prop}
    (hstep : ∀ {s t i}, R s t → P t i → (f s i).1 = (g t i).1 ∧ R (f s i).2 (g t i).2) (h : R s t)
    {is : List ι} (hP : Along g P t is) :
    outputs f s is = outputs g t is ∧ R (run f s is) (run g t is) := by
  induction is generalizing s t with
  | nil => exact ⟨rfl, h⟩
  | cons i is ih =>
    obtain ⟨hi, his⟩ := hP
    obtain ⟨hout, hrel⟩ := hstep h hi
    obtain ⟨houts, hrels⟩ := ih hrel his
    refine ⟨?_, hrels⟩
    rw [outputs, outputs, hout, houts]

end Condor.Lib.Transducer
