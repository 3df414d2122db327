import Condor.Kbd.Keys
import Condor.Lib.Transducer

/-!
# The key buffer

`buffer_push` and `buffer_pop` keep unread keys in an array with one index. The
index is the number of unread keys, `0xFFFF` after a read that found none, and
0 both after a reset and after the read of the last key. So keys are read newest
first, and the read after the one that drains the buffer returns that key again.
`reads_in_order` says when readers still see a queue.
-/

namespace Condor.Kbd

open Lib.Transducer

structure KeyBuffer where
  buffer_index : Nat
  key_buffer : Nat → BitVec 8

namespace KeyBuffer

def buffer_push (b : KeyBuffer) (keycode : BitVec 8) : KeyBuffer :=
  let index := if b.buffer_index = 0xFFFF then 0 else b.buffer_index
  if 1024 ≤ index then { b with buffer_index := index }
  else ⟨index + 1, Function.update b.key_buffer index keycode⟩

def buffer_pop (b : KeyBuffer) : BitVec 8 × KeyBuffer :=
  if b.buffer_index = 0 then (b.key_buffer 0, { b with buffer_index := 0xFFFF })
  else if b.buffer_index = 0xFFFF then (KEY_NONE, b)
  else (b.key_buffer (b.buffer_index - 1), { b with buffer_index := b.buffer_index - 1 })

def keyboard_readKey (b : KeyBuffer) : BitVec 8 × KeyBuffer := b.buffer_pop

/-- What `keyboard_resetState` does to the buffer. -/
def reset (b : KeyBuffer) : KeyBuffer := ⟨0, Function.update b.key_buffer 0 0⟩

end KeyBuffer

/-- A keycode that a key has. -/
abbrev Key := { k : BitVec 8 // k ≠ KEY_NONE }

inductive Op where
  | push (k : Key)
  | read
  deriving DecidableEq

/-- One call, with what a read returns. -/
def KeyBuffer.step (b : KeyBuffer) : Op → Option (BitVec 8) × KeyBuffer
  | .push k => (none, b.buffer_push k)
  | .read => (some b.keyboard_readKey.1, b.keyboard_readKey.2)

/-! ## The queue -/

/-- The unread keys, oldest first, and whether the last call read the last of them. -/
structure Queue where
  unread : List Key
  drained : Bool

namespace Queue

def empty : Queue := ⟨[], false⟩

def step (q : Queue) : Op → Option (BitVec 8) × Queue
  | .push k => (none, ⟨q.unread ++ [k], false⟩)
  | .read =>
    match q.unread with
    | [] => (some KEY_NONE, empty)
    | k :: ks => (some k.1, ⟨ks, ks.isEmpty⟩)

/-- No more keys are unread than the buffer holds. -/
def Fits (q : Queue) (op : Op) : Prop := (q.step op).2.unread.length ≤ 1024

/-- A read takes place when the unread keys are all the same, and not right after the read that drained
the buffer. -/
def ReadOk (q : Queue) (op : Op) : Prop :=
  op = .read → (∀ a ∈ q.unread, ∀ b ∈ q.unread, a = b) ∧ q.drained = false

instance (q : Queue) (op : Op) : Decidable (q.Fits op) := inferInstanceAs (Decidable (_ ≤ _))

instance (q : Queue) (op : Op) : Decidable (q.ReadOk op) := inferInstanceAs (Decidable (_ → _))

end Queue

def Op.pushed : Op → Option Key
  | .push k => some k
  | .read => none

/-- What a queue returns, less `KEY_NONE`, and what it keeps is what it was given. -/
theorem Queue.reads_append_unread {ops : List Op} {q : Queue} :
    (outputs Queue.step q ops).filter (· ≠ KEY_NONE) ++ (run Queue.step q ops).unread.map (·.1) =
      (q.unread ++ ops.filterMap Op.pushed).map (·.1) := by
  induction ops generalizing q with
  | nil => simp [outputs]
  | cons op ops ih =>
    rw [outputs, run_cons, List.filter_append, List.append_assoc, ih]
    cases op with
    | push k => simp [Queue.step, Op.pushed]
    | read =>
      obtain ⟨unread, drained⟩ := q
      rw [List.filterMap_cons_none rfl]
      cases unread with
      | nil => simp [Queue.step, Queue.empty]
      | cons k ks => simp [Queue.step, k.2]

/-- Reading finds no key exactly if none is unread. -/
theorem Queue.read_eq_none_iff {q : Queue} : (q.step .read).1 = some KEY_NONE ↔ q.unread = [] := by
  obtain ⟨unread, drained⟩ := q
  cases unread with
  | nil => simp [Queue.step]
  | cons k ks => simp [Queue.step, k.2]

/-- A read is sound while the unread keys are presses of one key. -/
theorem Queue.readOk_replicate {q : Queue} {op : Op} {n : Nat} {k : Key}
    (hu : q.unread = List.replicate n k) (hd : q.drained = false) : q.ReadOk op := by
  rintro -
  rw [hu]
  refine ⟨fun a ha b hb => ?_, hd⟩
  rw [List.eq_of_mem_replicate ha, List.eq_of_mem_replicate hb]

/-! ## The buffer as a queue -/

/-- The buffer holds the unread keys of the queue. -/
structure Holds (b : KeyBuffer) (q : Queue) : Prop where
  fits : q.unread.length ≤ 1024
  index : q.unread ≠ [] ∨ q.drained = true → b.buffer_index = q.unread.length
  idle : q.unread = [] → q.drained = false →
    b.buffer_index = 0xFFFF ∨ b.buffer_index = 0 ∧ b.key_buffer 0 = KEY_NONE
  keys : ∀ i (h : i < q.unread.length), b.key_buffer i = (q.unread[i]).1

theorem Holds.reset (b : KeyBuffer) : Holds b.reset .empty where
  fits := Nat.zero_le _
  index h := by simp [Queue.empty] at h
  idle _ _ := .inr ⟨rfl, by simp [KeyBuffer.reset, KEY_NONE]⟩
  keys i h := absurd h (Nat.not_lt_zero i)

/-- The index that `buffer_push` writes at is the number of unread keys. -/
theorem Holds.push_index {b : KeyBuffer} {q : Queue} (h : Holds b q) :
    (if b.buffer_index = 0xFFFF then 0 else b.buffer_index) = q.unread.length := by
  by_cases hq : q.unread ≠ [] ∨ q.drained = true
  · have := h.fits
    rw [h.index hq, if_neg (by omega)]
  · obtain ⟨hu, hd⟩ := not_or.mp hq
    have hu := not_not.mp hu
    rw [hu]
    rcases h.idle hu (Bool.not_eq_true _ ▸ hd) with h | ⟨h, -⟩ <;> simp [h]

theorem Holds.push {b : KeyBuffer} {q : Queue} (h : Holds b q) {k : Key}
    (hf : q.Fits (.push k)) : Holds (b.buffer_push k) (q.step (.push k)).2 := by
  have hlt : q.unread.length + 1 ≤ 1024 := by
    have := hf
    rwa [Queue.Fits, Queue.step, List.length_append] at this
  have hb : b.buffer_push k = ⟨q.unread.length + 1, Function.update b.key_buffer q.unread.length k⟩ := by
    unfold KeyBuffer.buffer_push
    rw [h.push_index]
    exact if_neg (by omega)
  rw [hb]
  refine ⟨hf, fun _ => by simp [Queue.step], fun hu => by simp [Queue.step] at hu, fun i hi => ?_⟩
  have hi : i < q.unread.length + 1 := by simpa [Queue.step] using hi
  by_cases hlast : i = q.unread.length
  · subst hlast
    simp [Queue.step]
  · have hlt : i < q.unread.length := by omega
    simp [Queue.step, Function.update_of_ne hlast, List.getElem_append_left hlt, h.keys i hlt]

theorem Holds.read {b : KeyBuffer} {q : Queue} (h : Holds b q) (hr : q.ReadOk .read) :
    some b.keyboard_readKey.1 = (q.step .read).1 ∧ Holds b.keyboard_readKey.2 (q.step .read).2 := by
  obtain ⟨hsame, hdrained⟩ := hr rfl
  obtain ⟨unread, drained⟩ := q
  unfold KeyBuffer.keyboard_readKey KeyBuffer.buffer_pop
  cases unread with
  | nil =>
    have hidle : Holds ⟨0xFFFF, b.key_buffer⟩ .empty :=
      ⟨Nat.zero_le _, fun h => by simp [Queue.empty] at h, fun _ _ => .inl rfl,
        fun i h => absurd h (Nat.not_lt_zero i)⟩
    obtain ⟨index, key_buffer⟩ := b
    rcases h.idle rfl hdrained with hi | ⟨hi, hk⟩
    · obtain rfl : index = 0xFFFF := hi
      exact ⟨rfl, hidle⟩
    · obtain rfl : index = 0 := hi
      exact ⟨congrArg some hk, hidle⟩
  | cons k ks =>
    have hfits : ks.length + 1 ≤ 1024 := h.fits
    have hindex : b.buffer_index = ks.length + 1 := h.index (.inl nofun)
    -- the unread keys are all `k`, so the newest is the oldest
    have hall : ∀ i (hi : i < (k :: ks).length), b.key_buffer i = k.1 := fun i hi =>
      (h.keys i hi).trans (congrArg _ (hsame _ (List.getElem_mem hi) _ List.mem_cons_self))
    rw [if_neg (by omega), if_neg (by omega), hindex, Nat.add_sub_cancel]
    refine ⟨congrArg some (hall _ (Nat.lt_succ_self _)), by simpa [Queue.step] using by omega, fun _ => rfl,
      fun hu hd => ?_, fun i hi => ?_⟩
    · simp only [Queue.step] at hu hd
      simp [hu] at hd
    · have hi : i < ks.length := hi
      rw [hall i (by simpa using by omega)]
      exact congrArg _ (hsame _ List.mem_cons_self _ (List.mem_cons_of_mem _ (List.getElem_mem hi)))

theorem Holds.step {b : KeyBuffer} {q : Queue} {op : Op} (h : Holds b q)
    (hop : q.Fits op ∧ q.ReadOk op) : (b.step op).1 = (q.step op).1 ∧
    Holds (b.step op).2 (q.step op).2 := by
  cases op with
  | push k => exact ⟨rfl, h.push hop.1⟩
  | read => exact h.read hop.2

/-- **Reading in order.** In a run whose reads are sound, the keys read are the keys pushed, in order and
once each, and a read finds no key exactly if none is unread. -/
theorem reads_in_order {b : KeyBuffer} {ops : List Op} (hfits : Along Queue.step Queue.Fits .empty ops)
    (hok : Along Queue.step Queue.ReadOk .empty ops) :
    (outputs KeyBuffer.step b.reset ops).filter (· ≠ KEY_NONE) ++
        (run Queue.step .empty ops).unread.map (·.1) = (ops.filterMap Op.pushed).map (·.1) ∧
      ∀ pre post, ops = pre ++ .read :: post →
        ((run KeyBuffer.step b.reset pre).keyboard_readKey.1 = KEY_NONE ↔
          (run Queue.step .empty pre).unread = []) := by
  have hboth := hfits.and hok
  refine ⟨?_, fun pre post hops => ?_⟩
  · obtain ⟨hout, -⟩ := simulation Holds.step (Holds.reset b) hboth
    rw [hout, Queue.reads_append_unread]
    rfl
  · rw [hops, Along.append] at hboth
    obtain ⟨hpre, hread, -⟩ := hboth
    obtain ⟨-, hholds⟩ := simulation Holds.step (Holds.reset b) hpre
    obtain ⟨hout, -⟩ := hholds.read hread.2
    rw [← Queue.read_eq_none_iff, ← hout, Option.some_inj]

/-- A first read that finds nothing, one key read, and two presses of a key read together. -/
theorem reads_in_order_repeat :
    let ops := [.read, .push ⟨KEY_A, nofun⟩, .read, .push ⟨KEY_B, nofun⟩, .push ⟨KEY_B, nofun⟩, .read]
    (outputs KeyBuffer.step (KeyBuffer.mk 0 fun _ => 0).reset ops).filter (· ≠ KEY_NONE) ++
      (run Queue.step .empty ops).unread.map (·.1) = (ops.filterMap Op.pushed).map (·.1) := by
  intro ops
  have hfits : Along Queue.step Queue.Fits .empty ops := by decide
  have hok : Along Queue.step Queue.ReadOk .empty ops :=
    ⟨Queue.readOk_replicate (n := 0) (k := ⟨KEY_A, nofun⟩) rfl rfl, nofun,
      Queue.readOk_replicate (n := 1) rfl rfl, nofun, nofun, Queue.readOk_replicate (n := 2) rfl rfl,
      trivial⟩
  exact (reads_in_order hfits hok).1

/-- A key pressed once is read twice. -/
theorem read_again_after_drain :
    let ops := [.push ⟨KEY_A, nofun⟩, .read, .read]
    Along Queue.step Queue.Fits .empty ops ∧
    outputs KeyBuffer.step (KeyBuffer.mk 0 fun _ => 0).reset ops = [KEY_A, KEY_A] ∧
    (ops.filterMap Op.pushed).map (·.1) = [KEY_A] ∧
    (run Queue.step .empty [.push ⟨KEY_A, nofun⟩, .read]).unread = [] := by
  decide

end Condor.Kbd
