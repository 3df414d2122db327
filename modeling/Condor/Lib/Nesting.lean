import Mathlib.Data.List.Basic

/-!
# Well-nested calls

A sequence of calls is `Nested` if each `enter` has a `leave` of its own after it
and the calls between the two are nested as well. `Restores` is what such a pair
is for: the value in force before the `enter` is in force again after the
`leave`.
-/

namespace Condor.Lib.Nesting

inductive Call (ι : Type) where
  | enter (i : ι)
  | leave
  deriving DecidableEq, Repr

inductive Nested {ι : Type} : List (Call ι) → Prop
  | nil : Nested []
  | pair (i : ι) {inner rest : List (Call ι)} (hinner : Nested inner) (hrest : Nested rest) :
      Nested (.enter i :: (inner ++ .leave :: rest))

variable {ι σ ν : Type} {l pre post : List (Call ι)} {i : ι}

/-- Every `enter` of a nested sequence has its `leave`. -/
theorem Nested.exists_leave (h : Nested l) (hl : l = pre ++ .enter i :: post) :
    ∃ inner rest, Nested inner ∧ post = inner ++ .leave :: rest := by
  induction h generalizing pre post with
  | nil => cases pre <;> cases hl
  | pair j hinner hrest ih ih' =>
    rename_i inner rest
    cases pre with
    | nil =>
      cases hl
      exact ⟨inner, rest, hinner, rfl⟩
    | cons c pre =>
      obtain ⟨-, hl⟩ := List.cons.inj hl
      rcases List.append_eq_append_iff.mp hl with ⟨mid, rfl, hmid⟩ | ⟨mid, rfl, hmid⟩
      · -- the call is the `leave` or comes after it
        cases mid with
        | nil => cases hmid
        | cons c mid => exact ih' (List.cons.inj hmid).2
      · cases mid with
        | nil => cases hmid
        | cons c mid =>
          obtain ⟨rfl, rfl⟩ := List.cons.inj hmid
          obtain ⟨inner', rest', hinner', rfl⟩ := ih rfl
          exact ⟨inner', rest' ++ .leave :: rest, hinner', List.append_assoc ..⟩

/-- A nested sequence starts with an `enter`. -/
theorem Nested.head (h : Nested l) : l = [] ∨ ∃ i rest, l = .enter i :: rest := by
  cases h with
  | nil => exact .inl rfl
  | pair i => exact .inr ⟨i, _, rfl⟩

/-- Each `leave` brings back the value that was in force before its `enter`. -/
def Restores (step : σ → Call ι → σ) (value : σ → ν) (l : List (Call ι)) (s : σ) : Prop :=
  ∀ pre i inner post, Nested inner → l = pre ++ .enter i :: (inner ++ .leave :: post) →
    value ((pre ++ .enter i :: (inner ++ [.leave])).foldl step s) = value (pre.foldl step s)

end Condor.Lib.Nesting
