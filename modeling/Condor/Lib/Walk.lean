import Condor.Lib.Chain

/-!
# Walks along a list

`walk next visit n p s` follows `next` from `p` and visits each node with the state
`s`, until a visit answers `true` or the list ends; `n` bounds the nodes visited.
Along a complete chain of no more than `n` nodes it is `visits` on the list of
the nodes (`walk_chain`), which either has all of them declined or stops at the
first that is not (`visits_cases`). `find_last` is the walk to the last node.
-/

namespace Condor.Lib

variable {α β σ : Type}

def walk (next : α → Option α) (visit : α → σ → Bool × σ) : Nat → Option α → σ → Option (Bool × σ)
  | _, none, s => some (false, s)
  | 0, some _, _ => none
  | n + 1, some a, s =>
    if (visit a s).1 then some (visit a s) else walk next visit n (next a) (visit a s).2

/-- `while (a->next) a = a->next`. -/
def find_last (next : α → Option α) : Nat → α → Option α
  | 0, _ => none
  | n + 1, a =>
    match next a with
    | none => some a
    | some b => find_last next n b

/-- Visits the list until a visit answers `true`. -/
def visits (visit : α → σ → Bool × σ) : List α → σ → Bool × σ
  | [], s => (false, s)
  | a :: l, s => if (visit a s).1 then visit a s else visits visit l (visit a s).2

/-- The state after all of the list has been visited. -/
def after (visit : α → σ → Bool × σ) (l : List α) (s : σ) : σ := l.foldl (fun s a => (visit a s).2) s

/-- All visits answer `false`. -/
def AllDecline (visit : α → σ → Bool × σ) : List α → σ → Prop
  | [], _ => True
  | a :: l, s => (visit a s).1 = false ∧ AllDecline visit l (visit a s).2

variable {next : α → Option α} {visit : α → σ → Bool × σ} {p : Option α} {l : List α} {a z : α}
  {s : σ} {n : Nat}

/-- The walk along a complete chain. -/
theorem walk_chain (h : Chain next p l none) (hn : l.length ≤ n) :
    walk next visit n p s = some (visits visit l s) := by
  induction l generalizing n p s with
  | nil =>
    rw [show p = none from h]
    cases n <;> rfl
  | cons a l ih =>
    obtain ⟨m, rfl⟩ : ∃ m, n = m + 1 := ⟨n - 1, by rw [List.length_cons] at hn; omega⟩
    rw [h.1, walk, visits, ih h.2 (by rw [List.length_cons] at hn; omega)]
    split <;> rfl

/-- The walk to the end of a chain finds its last node. -/
theorem find_last_chain (h : Chain next (some a) (l ++ [z]) none) (hn : l.length < n) :
    find_last next n a = some z := by
  obtain ⟨m, rfl⟩ : ∃ m, n = m + 1 := ⟨n - 1, by omega⟩
  induction l generalizing m a with
  | nil =>
    obtain ⟨ha, hnext⟩ := h
    cases ha
    rw [find_last, show next z = none from hnext]
  | cons b l ih =>
    obtain ⟨ha, hrest⟩ := h
    cases ha
    rw [List.length_cons] at hn
    obtain ⟨k, rfl⟩ : ∃ k, m = k + 1 := ⟨m - 1, by omega⟩
    cases hnext : next b with
    | none =>
      rw [hnext] at hrest
      cases l with
      | nil => exact nomatch hrest.1
      | cons c l => exact nomatch hrest.1
    | some c =>
      rw [hnext] at hrest
      rw [find_last, hnext]
      exact ih hrest k (by omega)

theorem visits_map (f : β → α) (l : List β) (s : σ) :
    visits (fun b => visit (f b)) l s = visits visit (l.map f) s := by
  induction l generalizing s with
  | nil => rfl
  | cons b l ih => rw [visits, List.map_cons, visits, ih]

/-- All are declined, or all up to the one that the walk stops at. -/
theorem visits_cases (visit : α → σ → Bool × σ) (l : List α) (s : σ) :
    (AllDecline visit l s ∧ visits visit l s = (false, after visit l s)) ∨
    ∃ l₁ a l₂, l = l₁ ++ a :: l₂ ∧ AllDecline visit l₁ s ∧ (visit a (after visit l₁ s)).1 = true ∧
      visits visit l s = visit a (after visit l₁ s) := by
  induction l generalizing s with
  | nil => exact .inl ⟨trivial, rfl⟩
  | cons a l ih =>
    rw [visits]
    by_cases hstop : (visit a s).1 = true
    · exact .inr ⟨[], a, l, rfl, trivial, hstop, if_pos hstop⟩
    · rw [if_neg hstop]
      have hdecline : (visit a s).1 = false := Bool.not_eq_true _ ▸ hstop
      rcases ih (visit a s).2 with ⟨hall, heq⟩ | ⟨l₁, b, l₂, rfl, hall, hb, heq⟩
      · exact .inl ⟨⟨hdecline, hall⟩, heq⟩
      · exact .inr ⟨a :: l₁, b, l₂, rfl, ⟨hdecline, hall⟩, hb, heq⟩

end Condor.Lib
