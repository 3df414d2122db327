import Mathlib.Data.List.Basic
import Mathlib.Data.Nat.Basic
import Mathlib.Order.Basic

/-!
# Spans in order

`Packed S lo hi l`: the spans of the items `l` lie between `lo` and `hi`, in order and
apart. `after lo xs` and `before hi ys` are the ends of the gap between two parts of the
list. An item fits between them if it is inside of the gap (`Packed.insert`), and no gap
is longer than what the spans leave free (`Packed.total_add_gap`).
-/

namespace Condor.Lib

/-- Where an item starts and where it ends. -/
structure Spans (β : Type) where
  start : β → Nat
  fin : β → Nat
  le : ∀ b, start b ≤ fin b

namespace Spans

variable {β : Type} (S : Spans β)

structure Packed (lo hi : Nat) (l : List β) : Prop where
  lo : ∀ b ∈ l, lo ≤ S.start b
  hi : ∀ b ∈ l, S.fin b ≤ hi
  ordered : l.Pairwise fun b c => S.fin b ≤ S.start c

/-- What the spans take together. -/
def total : List β → Nat
  | [] => 0
  | b :: l => S.fin b - S.start b + total l

/-- Where the last item ends. -/
def after : Nat → List β → Nat
  | lo, [] => lo
  | _, b :: l => after (S.fin b) l

/-- Where the first item starts. -/
def before (hi : Nat) : List β → Nat
  | [] => hi
  | b :: _ => S.start b

variable {S} {lo hi : Nat} {l xs ys zs : List β} {b c z : β}

theorem after_concat : S.after lo (zs ++ [z]) = S.fin z := by
  induction zs generalizing lo with
  | nil => rfl
  | cons b zs ih => exact ih

theorem total_append : S.total (xs ++ ys) = S.total xs + S.total ys := by
  induction xs with
  | nil => exact (Nat.zero_add _).symm
  | cons b xs ih => rw [List.cons_append, total, total, ih, Nat.add_assoc]

namespace Packed

theorem nil : S.Packed lo hi [] := ⟨nofun, nofun, .nil⟩

theorem left (h : S.Packed lo hi (xs ++ ys)) : S.Packed lo hi xs :=
  ⟨fun c hc => h.lo c (by simp [hc]), fun c hc => h.hi c (by simp [hc]), (List.pairwise_append.mp h.ordered).1⟩

theorem right (h : S.Packed lo hi (xs ++ ys)) : S.Packed lo hi ys :=
  ⟨fun c hc => h.lo c (by simp [hc]), fun c hc => h.hi c (by simp [hc]),
    (List.pairwise_append.mp h.ordered).2.1⟩

theorem le_of_front (h : S.Packed lo hi (xs ++ b :: ys)) (hc : c ∈ xs) : S.fin c ≤ S.start b :=
  (List.pairwise_append.mp h.ordered).2.2 c hc b (by simp)

theorem le_of_cons (h : S.Packed lo hi (b :: ys)) (hc : c ∈ ys) : S.fin b ≤ S.start c :=
  (List.pairwise_cons.mp h.ordered).1 c hc

theorem le_of_back (h : S.Packed lo hi (xs ++ b :: ys)) (hc : c ∈ ys) : S.fin b ≤ S.start c :=
  h.right.le_of_cons hc

theorem erase (h : S.Packed lo hi (xs ++ b :: ys)) : S.Packed lo hi (xs ++ ys) := by
  have hsub : (xs ++ ys).Sublist (xs ++ b :: ys) := (List.sublist_cons_self b ys).append_left xs
  exact ⟨fun c hc => h.lo c (hsub.mem hc), fun c hc => h.hi c (hsub.mem hc), h.ordered.sublist hsub⟩

/-- An item with another one in its place. -/
theorem replace (h : S.Packed lo hi (xs ++ b :: ys)) (hstart : S.start c = S.start b) (hfin : S.fin c = S.fin b) :
    S.Packed lo hi (xs ++ c :: ys) := by
  obtain ⟨hlo, hhi, hordered⟩ := h
  rw [List.forall_mem_append, List.forall_mem_cons] at hlo hhi
  rw [List.pairwise_append, List.pairwise_cons] at hordered
  refine ⟨?_, ?_, ?_⟩
  · rw [List.forall_mem_append, List.forall_mem_cons, hstart]
    exact hlo
  · rw [List.forall_mem_append, List.forall_mem_cons, hfin]
    exact hhi
  · rw [List.pairwise_append, List.pairwise_cons, hfin]
    refine ⟨hordered.1, hordered.2.1, fun d hd => ?_⟩
    have hd' := hordered.2.2 d hd
    rw [List.forall_mem_cons] at hd' ⊢
    rwa [hstart]

/-- All items of the front end where the last one does, or before. -/
theorem fin_le_after (h : S.Packed lo hi xs) (hc : c ∈ xs) : S.fin c ≤ S.after lo xs := by
  rcases List.eq_nil_or_concat xs with rfl | ⟨zs, z, rfl⟩
  · cases hc
  rw [List.concat_eq_append] at h hc ⊢
  rw [after_concat]
  rcases List.mem_append.mp hc with hc | hc
  · exact (h.le_of_front hc).trans (S.le z)
  · rw [List.mem_singleton.mp hc]

theorem before_le_start (h : S.Packed lo hi ys) (hc : c ∈ ys) : S.before hi ys ≤ S.start c := by
  cases ys with
  | nil => cases hc
  | cons b ys =>
    rcases List.mem_cons.mp hc with rfl | hc
    · exact Nat.le_refl _
    · exact (S.le b).trans (h.le_of_cons hc)

theorem le_after (h : S.Packed lo hi xs) : lo ≤ S.after lo xs := by
  cases xs with
  | nil => exact Nat.le_refl _
  | cons b xs => exact ((h.lo b (by simp)).trans (S.le b)).trans (h.fin_le_after (by simp))

theorem before_le (h : S.Packed lo hi ys) : S.before hi ys ≤ hi := by
  cases ys with
  | nil => exact Nat.le_refl _
  | cons b ys => exact (S.le b).trans (h.hi b (by simp))

/-- **Inserting** an item in the gap between the two parts. -/
theorem insert (h : S.Packed lo hi (xs ++ ys)) (hlo : S.after lo xs ≤ S.start b)
    (hhi : S.fin b ≤ S.before hi ys) : S.Packed lo hi (xs ++ b :: ys) := by
  have hx := fun c (hc : c ∈ xs) => (h.left.fin_le_after hc).trans hlo
  have hy := fun c (hc : c ∈ ys) => hhi.trans (h.right.before_le_start hc)
  have hmem : ∀ c ∈ xs ++ b :: ys, c ∈ xs ++ ys ∨ c = b := fun c hc => by
    simp only [List.mem_append, List.mem_cons] at hc ⊢
    tauto
  refine ⟨fun c hc => ?_, fun c hc => ?_, ?_⟩
  · rcases hmem c hc with hc | rfl
    · exact h.lo c hc
    · exact h.left.le_after.trans hlo
  · rcases hmem c hc with hc | rfl
    · exact h.hi c hc
    · exact hhi.trans h.right.before_le
  · obtain ⟨hxs, hys, hxy⟩ := List.pairwise_append.mp h.ordered
    refine List.pairwise_append.mpr ⟨hxs, List.pairwise_cons.mpr ⟨hy, hys⟩, fun c hc d hd => ?_⟩
    rcases List.mem_cons.mp hd with rfl | hd
    · exact hx c hc
    · exact hxy c hc d hd

theorem total_le (h : S.Packed lo hi l) : S.total l + lo ≤ S.after lo l := by
  induction l generalizing lo with
  | nil => exact Nat.le_of_eq (Nat.zero_add lo)
  | cons b l ih =>
    have hb := h.lo b (by simp)
    have hle := S.le b
    have hl : S.Packed (S.fin b) hi l :=
      ⟨fun c hc => h.le_of_cons hc, fun c hc => h.hi c (by simp [hc]),
        (List.pairwise_cons.mp h.ordered).2⟩
    have := ih hl
    rw [total, after]
    omega

theorem total_add_before (h : S.Packed lo hi l) : S.total l + S.before hi l ≤ hi := by
  cases l with
  | nil => exact Nat.le_of_eq (Nat.zero_add hi)
  | cons b l =>
    have hl : S.Packed (S.start b) hi (b :: l) :=
      ⟨fun c hc => (h.before_le_start hc), h.hi, h.ordered⟩
    have htotal := hl.total_le
    rcases List.eq_nil_or_concat (b :: l) with hnil | ⟨zs, z, hz⟩
    · cases hnil
    have hfin : S.after (S.start b) (b :: l) ≤ hi := by
      rw [hz, List.concat_eq_append, after_concat]
      exact h.hi z (by simp [hz])
    exact htotal.trans hfin

/-- The spans fit. -/
theorem total_le_room (h : S.Packed lo hi l) (hle : lo ≤ hi) : S.total l + lo ≤ hi := by
  have hbefore := h.total_add_before
  have hlo : lo ≤ S.before hi l := by
    cases l with
    | nil => exact hle
    | cons b l => exact h.lo b (by simp)
  omega

/-- The spans and any gap between them fit. -/
theorem total_add_gap (h : S.Packed lo hi (xs ++ ys)) :
    S.total (xs ++ ys) + lo + S.before hi ys ≤ hi + S.after lo xs := by
  have hx := h.left.total_le
  have hy := h.right.total_add_before
  rw [total_append]
  omega

end Packed

end Spans

end Condor.Lib
