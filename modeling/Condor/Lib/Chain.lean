import Mathlib.Logic.Function.Basic
import Mathlib.Data.List.Basic

/-!
# Singly linked lists

`Chain next p l r`: following `next` from `p` visits the nodes `l`, in order, and
arrives at `r`. A complete list arrives at `none`. The lemmas split a chain,
read its last link, move it to a `next` that agrees on its nodes, and change one
link.
-/

namespace Condor.Lib

variable {α : Type}

/-- Following `next` from `p` visits `l` and arrives at `r`. -/
def Chain (next : α → Option α) (p : Option α) : List α → Option α → Prop
  | [], r => p = r
  | a :: l, r => p = some a ∧ Chain next (next a) l r

namespace Chain

variable {next next' : α → Option α} {p r : Option α} {l l₁ l₂ : List α} {a : α}

theorem append_iff : Chain next p (l₁ ++ l₂) r ↔ ∃ m, Chain next p l₁ m ∧ Chain next m l₂ r := by
  induction l₁ generalizing p with
  | nil => exact ⟨fun h => ⟨p, rfl, h⟩, fun ⟨_, h1, h2⟩ => h1 ▸ h2⟩
  | cons a l₁ ih =>
    show (p = some a ∧ Chain next (next a) (l₁ ++ l₂) r) ↔ _
    rw [ih]
    exact ⟨fun ⟨h, m, h1, h2⟩ => ⟨m, ⟨h, h1⟩, h2⟩, fun ⟨m, ⟨h, h1⟩, h2⟩ => ⟨h, m, h1, h2⟩⟩

/-- The last node of a chain and its link. -/
theorem concat_iff : Chain next p (l ++ [a]) r ↔ Chain next p l (some a) ∧ next a = r := by
  rw [append_iff]
  constructor
  · rintro ⟨m, h1, rfl, h2⟩
    exact ⟨h1, h2⟩
  · rintro ⟨h1, h2⟩
    exact ⟨some a, h1, rfl, h2⟩

/-- A chain only reads the links of its nodes. -/
theorem congr (h : Chain next p l r) (hn : ∀ a ∈ l, next' a = next a) : Chain next' p l r := by
  induction l generalizing p with
  | nil => exact h
  | cons a l ih =>
    refine ⟨h.1, ih ?_ fun b hb => hn b (List.mem_cons_of_mem _ hb)⟩
    rw [hn a List.mem_cons_self]
    exact h.2

/-- A complete list starts at its first node. -/
theorem head_eq (h : Chain next p l none) : p = l.head? := by
  cases l with
  | nil => exact h
  | cons a l => exact h.1

/-- A complete list is determined by its first node. -/
theorem unique (h₁ : Chain next p l₁ none) (h₂ : Chain next p l₂ none) : l₁ = l₂ := by
  induction l₁ generalizing p l₂ with
  | nil =>
    cases l₂ with
    | nil => rfl
    | cons b l₂ =>
      cases h₁
      cases h₂.1
  | cons a l₁ ih =>
    cases l₂ with
    | nil =>
      cases h₂
      cases h₁.1
    | cons b l₂ =>
      have hab : a = b := Option.some.inj (h₁.1.symm.trans h₂.1)
      subst hab
      rw [ih h₁.2 h₂.2]

variable [DecidableEq α]

/-- Changing the link of a node outside the chain. -/
theorem update_of_notMem (h : Chain next p l r) (ha : a ∉ l) (m : Option α) :
    Chain (Function.update next a m) p l r :=
  h.congr fun c hc => Function.update_of_ne (by rintro rfl; exact ha hc) ..

/-- Changing the last link. -/
theorem update_last (h : Chain next p (l ++ [a]) r) (ha : a ∉ l) (m : Option α) :
    Chain (Function.update next a m) p (l ++ [a]) m := by
  refine concat_iff.mpr ⟨(concat_iff.mp h).1.congr fun c hc => ?_, Function.update_self ..⟩
  exact Function.update_of_ne (by rintro rfl; exact ha hc) ..

/-- Linking a node behind the last one. -/
theorem link_last {z : α} (h : Chain next p (l ++ [z]) none) (hz : z ∉ l) (hne : a ≠ z)
    (ha : next a = none) :
    Chain (Function.update next z (some a)) p ((l ++ [z]) ++ [a]) none :=
  concat_iff.mpr ⟨h.update_last hz (some a), (Function.update_of_ne hne ..).trans ha⟩

end Chain

end Condor.Lib
