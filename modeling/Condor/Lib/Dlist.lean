import Mathlib.Data.List.Basic

/-!
# Doubly linked lists

`Linked D read prev l next` says that the nodes of the items `l` hold what `D.node`
makes of an item and of the addresses on its two sides: `prev` in front of the list
and `next` behind it. `linked_append` cuts a list in two. `Linked.splice` puts other
items in the place of some, if the nodes on both sides of the seam are linked to them
and all others are as they were; inserting and unlinking an item are cases of it.
-/

namespace Condor.Lib

variable {α β ρ : Type}

/-- How items become nodes: where a node stands, and what it holds between two others. -/
structure Dlist (α β ρ : Type) where
  addr : β → α
  node : α → β → α → ρ

namespace Dlist

variable (D : Dlist α β ρ)

/-- The address of the first item, or of what follows the list. -/
def start : List β → α → α
  | [], next => next
  | b :: _, _ => D.addr b

/-- The address of the last item, or of what precedes the list. -/
def finish : α → List β → α
  | prev, [] => prev
  | _, b :: l => finish (D.addr b) l

def Linked (read : α → ρ) : α → List β → α → Prop
  | _, [], _ => True
  | prev, b :: l, next =>
    read (D.addr b) = D.node prev b (D.start l next) ∧ Linked read (D.addr b) l next

variable {D} {read read' : α → ρ} {prev next next' : α} {l xs ys zs : List β} {a b z : β}

@[simp] theorem start_nil : D.start [] next = next := rfl

@[simp] theorem start_cons : D.start (b :: l) next = D.addr b := rfl

theorem start_append : D.start (xs ++ ys) next = D.start xs (D.start ys next) := by
  cases xs <;> rfl

theorem finish_append : D.finish prev (xs ++ ys) = D.finish (D.finish prev xs) ys := by
  induction xs generalizing prev with
  | nil => rfl
  | cons b xs ih => exact ih

theorem finish_concat : D.finish prev (xs ++ [b]) = D.addr b := by
  rw [finish_append]
  rfl

theorem linked_append : D.Linked read prev (xs ++ ys) next ↔
    D.Linked read prev xs (D.start ys next) ∧ D.Linked read (D.finish prev xs) ys next := by
  induction xs generalizing prev with
  | nil => exact (and_iff_right trivial).symm
  | cons b xs ih =>
    rw [List.cons_append, Linked, Linked, ih, start_append, and_assoc]
    rfl

theorem linked_concat : D.Linked read prev (zs ++ [z]) next ↔
    D.Linked read prev zs (D.addr z) ∧ read (D.addr z) = D.node (D.finish prev zs) z next := by
  rw [linked_append]
  exact and_congr_right fun _ => and_iff_left trivial

/-- What the node of an item holds. -/
theorem Linked.node_eq (h : D.Linked read prev (xs ++ b :: ys) next) :
    read (D.addr b) = D.node (D.finish prev xs) b (D.start ys next) := (linked_append.mp h).2.1

/-- A list only reads the nodes of its items. -/
theorem Linked.congr (h : D.Linked read prev l next) (hr : ∀ b ∈ l, read' (D.addr b) = read (D.addr b)) :
    D.Linked read' prev l next := by
  induction l generalizing prev with
  | nil => trivial
  | cons b l ih =>
    exact ⟨(hr b List.mem_cons_self).trans h.1, ih h.2 fun c hc => hr c (List.mem_cons_of_mem _ hc)⟩

/-- The items in front of a seam: the last one is linked anew. -/
theorem Linked.relink_last (h : D.Linked read prev xs next)
    (hlast : ∀ zs z, xs = zs ++ [z] → read' (D.addr z) = D.node (D.finish prev zs) z next')
    (hr : ∀ zs z, xs = zs ++ [z] → ∀ c ∈ zs, read' (D.addr c) = read (D.addr c)) :
    D.Linked read' prev xs next' := by
  rcases List.eq_nil_or_concat xs with rfl | ⟨zs, z, rfl⟩
  · trivial
  · rw [List.concat_eq_append] at h hlast hr ⊢
    rw [linked_concat] at h ⊢
    exact ⟨h.1.congr (hr zs z rfl), hlast zs z rfl⟩

/-- The items behind a seam: the first one is linked anew. -/
theorem Linked.relink_first {prev' : α} (h : D.Linked read prev ys next)
    (hfirst : ∀ w ws, ys = w :: ws → read' (D.addr w) = D.node prev' w (D.start ws next))
    (hr : ∀ w ws, ys = w :: ws → ∀ c ∈ ws, read' (D.addr c) = read (D.addr c)) :
    D.Linked read' prev' ys next := by
  cases ys with
  | nil => trivial
  | cons w ws => exact ⟨hfirst w ws rfl, h.2.congr (hr w ws rfl)⟩

/-- **Splicing.** The items `mid` are replaced by `mid'`. -/
theorem Linked.splice {mid mid' : List β} (h : D.Linked read prev (xs ++ (mid ++ ys)) next)
    (hmid : D.Linked read' (D.finish prev xs) mid' (D.start ys next))
    (hlast : ∀ zs z, xs = zs ++ [z] →
      read' (D.addr z) = D.node (D.finish prev zs) z (D.start (mid' ++ ys) next))
    (hfirst : ∀ w ws, ys = w :: ws →
      read' (D.addr w) = D.node (D.finish (D.finish prev xs) mid') w (D.start ws next))
    (hfront : ∀ zs z, xs = zs ++ [z] → ∀ c ∈ zs, read' (D.addr c) = read (D.addr c))
    (hback : ∀ w ws, ys = w :: ws → ∀ c ∈ ws, read' (D.addr c) = read (D.addr c)) :
    D.Linked read' prev (xs ++ (mid' ++ ys)) next := by
  rw [linked_append, linked_append] at h ⊢
  exact ⟨h.1.relink_last hlast hfront, hmid, h.2.2.relink_first hfirst hback⟩

/-- Inserting an item at the seam. -/
theorem Linked.insert (h : D.Linked read prev (xs ++ ys) next)
    (hb : read' (D.addr b) = D.node (D.finish prev xs) b (D.start ys next))
    (hlast : ∀ zs z, xs = zs ++ [z] → read' (D.addr z) = D.node (D.finish prev zs) z (D.addr b))
    (hfirst : ∀ w ws, ys = w :: ws → read' (D.addr w) = D.node (D.addr b) w (D.start ws next))
    (hfront : ∀ zs z, xs = zs ++ [z] → ∀ c ∈ zs, read' (D.addr c) = read (D.addr c))
    (hback : ∀ w ws, ys = w :: ws → ∀ c ∈ ws, read' (D.addr c) = read (D.addr c)) :
    D.Linked read' prev (xs ++ b :: ys) next :=
  @splice _ _ _ D read read' prev next xs ys [] [b] h ⟨hb, trivial⟩ hlast hfirst hfront hback

/-- Taking an item out. -/
theorem Linked.unlink (h : D.Linked read prev (xs ++ b :: ys) next)
    (hlast : ∀ zs z, xs = zs ++ [z] → read' (D.addr z) = D.node (D.finish prev zs) z (D.start ys next))
    (hfirst : ∀ w ws, ys = w :: ws → read' (D.addr w) = D.node (D.finish prev xs) w (D.start ws next))
    (hfront : ∀ zs z, xs = zs ++ [z] → ∀ c ∈ zs, read' (D.addr c) = read (D.addr c))
    (hback : ∀ w ws, ys = w :: ws → ∀ c ∈ ws, read' (D.addr c) = read (D.addr c)) :
    D.Linked read' prev (xs ++ ys) next :=
  @splice _ _ _ D read read' prev next xs ys [b] [] h trivial hlast hfirst hfront hback

/-- Replacing an item by one at the same address. -/
theorem Linked.replace (h : D.Linked read prev (xs ++ a :: ys) next) (haddr : D.addr b = D.addr a)
    (hb : read' (D.addr b) = D.node (D.finish prev xs) b (D.start ys next))
    (hr : ∀ c, c ∈ xs ∨ c ∈ ys → read' (D.addr c) = read (D.addr c)) :
    D.Linked read' prev (xs ++ b :: ys) next := by
  rw [linked_append] at h ⊢
  refine ⟨?_, hb, ?_⟩
  · show D.Linked read' prev xs (D.addr b)
    rw [haddr]
    exact h.1.congr fun c hc => hr c (.inl hc)
  · rw [haddr]
    exact h.2.2.congr fun c hc => hr c (.inr hc)

end Dlist

end Condor.Lib
