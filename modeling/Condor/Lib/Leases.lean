import Condor.Lib.Records
import Condor.Lib.Runs
import Mathlib.Data.Set.Insert

/-!
# Memory that is handed out

What an allocator is for, without an allocator. A `Lease` is a range of memory that
somebody may use, a `Book` the leases in force and the memory. `Promised a` are the steps
that an allocator may take with its users: a new lease starts at a multiple of `a` and
shares no byte with another one, and no byte of a lease changes unless its owner writes
it. In a run of such steps the leases stay apart (`Run.sound`), and a byte holds what was
written last for as long as its lease is in force (`Run.content`).
-/

namespace Condor.Lib

variable {w : Nat}

structure Lease (w : Nat) where
  pointer : BitVec w
  length : Nat
  deriving DecidableEq

namespace Lease

def Has (ℓ : Lease w) (x : BitVec w) : Prop := Among ℓ.pointer ℓ.length x

def Apart (ℓ k : Lease w) : Prop := ∀ x, ℓ.Has x → ¬ k.Has x

theorem Apart.symm {ℓ k : Lease w} (h : ℓ.Apart k) : k.Apart ℓ := fun x hk hl => h x hl hk

end Lease

structure Book (w : Nat) where
  live : Set (Lease w)
  memory : Memory w

/-- What an owner asks for or does. A request ends with the pointer that is the answer. -/
inductive Event (w : Nat) where
  | malloc (n : Nat) (p : BitVec w)
  | calloc (n : Nat) (p : BitVec w)
  | realloc (p : BitVec w) (n : Nat) (q : BitVec w)
  | free (p : BitVec w)
  | write (x : BitVec w) (c : BitVec 8)
  deriving DecidableEq

namespace Event

/-- The lease that starts. The null pointer is a refusal. -/
def granted : Event w → Option (Lease w)
  | malloc n p => if p = 0 then none else some ⟨p, n⟩
  | calloc n p => if p = 0 then none else some ⟨p, n⟩
  | realloc _ n q => if n = 0 then none else some ⟨q, n⟩
  | free _ => none
  | write _ _ => none

/-- The pointer of the lease that ends. -/
def ended : Event w → Option (BitVec w)
  | malloc _ _ => none
  | calloc _ _ => none
  | realloc p _ _ => some p
  | free p => some p
  | write _ _ => none

def Writes (e : Event w) (x : BitVec w) : Prop := ∃ c, e = write x c

/-- The leases in force afterwards. -/
def after (live : Set (Lease w)) (e : Event w) : Set (Lease w) :=
  {ℓ | e.granted = some ℓ ∨ ℓ ∈ live ∧ e.ended ≠ some ℓ.pointer}

/-- What the event says of the bytes in the new memory `m'`. -/
def Contents (B : Book w) (m' : Memory w) : Event w → Prop
  | malloc _ _ => True
  | calloc n p => p ≠ 0 → ∀ x, Among p n x → m' x = 0
  | realloc p n q => n ≠ 0 → ∀ ℓ ∈ B.live, ℓ.pointer = p → ∀ i, i < n → i < ℓ.length →
      m' (q + BitVec.ofNat w i) = B.memory (p + BitVec.ofNat w i)
  | free _ => True
  | write x c => m' = Function.update B.memory x c

end Event

/-- A lease that may start where those of `live` are in force. -/
structure Lease.Fresh (a : Nat) (live : Set (Lease w)) (ℓ : Lease w) : Prop where
  ne : ℓ.pointer ≠ 0
  aligned : ℓ.pointer.toNat % a = 0
  fits : ℓ.pointer.toNat + ℓ.length ≤ 2 ^ w
  other : ∀ k ∈ live, k.pointer ≠ ℓ.pointer
  apart : ∀ k ∈ live, ℓ.Apart k

structure Promised (a : Nat) (B : Book w) (e : Event w) (B' : Book w) : Prop where
  live : B'.live = e.after B.live
  fresh : ∀ ℓ, e.granted = some ℓ → ℓ.Fresh a {k ∈ B.live | e.ended ≠ some k.pointer}
  kept : ∀ ℓ ∈ B.live, e.ended ≠ some ℓ.pointer → ∀ x, ℓ.Has x → ¬ e.Writes x → B'.memory x = B.memory x
  contents : e.Contents B B'.memory

/-- The leases in force are apart. -/
def Book.Sound (a : Nat) (B : Book w) : Prop := ∀ ℓ ∈ B.live, ℓ.Fresh a (B.live \ {ℓ})

section
variable {a : Nat} {B B' : Book w} {e : Event w} {es : List (Event w)} {ℓ : Lease w} {x : BitVec w}

theorem Book.sound_nothing (m : Memory w) : Book.Sound a ⟨∅, m⟩ := fun _ h => h.elim

theorem Lease.Fresh.mono {live live' : Set (Lease w)} (h : ℓ.Fresh a live) (hsub : ∀ k ∈ live', k ∈ live) :
    ℓ.Fresh a live' :=
  ⟨h.ne, h.aligned, h.fits, fun k hk => h.other k (hsub k hk), fun k hk => h.apart k (hsub k hk)⟩

theorem Promised.sound (h : Promised a B e B') (hB : B.Sound a) : B'.Sound a := by
  intro ℓ hℓ
  rw [h.live] at hℓ ⊢
  rcases hℓ with hgranted | ⟨hlive, hends⟩
  · -- the new lease, beside those that stay
    refine (h.fresh ℓ hgranted).mono fun k hk => ?_
    obtain ⟨hgranted' | hold, hne⟩ := hk
    · exact (hne (Option.some.inj (hgranted'.symm.trans hgranted))).elim
    · exact hold
  · have hfresh := hB ℓ hlive
    have hothers : ∀ k ∈ e.after B.live \ {ℓ}, e.granted = some k ∨ k ∈ B.live \ {ℓ} := fun k hk =>
      hk.1.imp id fun hold => ⟨hold.1, hk.2⟩
    refine ⟨hfresh.ne, hfresh.aligned, hfresh.fits, fun k hk => ?_, fun k hk => ?_⟩
    · rcases hothers k hk with hgranted | hold
      · exact ((h.fresh k hgranted).other ℓ ⟨hlive, hends⟩).symm
      · exact hfresh.other k hold
    · rcases hothers k hk with hgranted | hold
      · exact ((h.fresh k hgranted).apart ℓ ⟨hlive, hends⟩).symm
      · exact hfresh.apart k hold

/-- **The leases stay apart.** -/
theorem Run.sound (h : Run (Promised a) B es B') (hB : B.Sound a) : B'.Sound a :=
  h.inv (fun _ _ _ hB hstep => hstep.sound hB) hB

/-- **A byte keeps what was written to it last**, as long as its lease does not end. -/
theorem Run.content (h : Run (Promised a) B es B') (hℓ : ℓ ∈ B.live) (hx : ℓ.Has x)
    (hends : ∀ e ∈ es, e.ended ≠ some ℓ.pointer) (hwrites : ∀ e ∈ es, ¬ e.Writes x) :
    ℓ ∈ B'.live ∧ B'.memory x = B.memory x := by
  induction h with
  | nil => exact ⟨hℓ, rfl⟩
  | @snoc B₁ B₂ es e _ hlast ih =>
    obtain ⟨hlive, hsame⟩ := ih (fun e he => hends e (by simp [he])) fun e he => hwrites e (by simp [he])
    have hend := hends e (by simp)
    refine ⟨?_, (hlast.kept ℓ hlive hend x hx (hwrites e (by simp))).trans hsame⟩
    rw [hlast.live]
    exact .inr ⟨hlive, hend⟩

end

end Condor.Lib
