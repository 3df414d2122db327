import Condor.Heap.Liballoc

/-!
# The lock

`liballoc_lock` disables interrupts and `liballoc_unlock` restores them. Between the two
nothing of the allocator changes the flags (`Quiet`), and on every path that returns each
lock is followed by one unlock: a call enters and leaves a number of sections one after
the other, `kmalloc` at least one (`kmalloc_sections`) and `krealloc` at most four.
Whatever the flag was, interrupts are off after a section (`Sections.off`).

A hook that stops leaves the lock taken.
-/

namespace Condor.Heap.Liballoc

open Lib Lib.Prog

section
variable {ε σ α β : Type} {E : Stop ε → Prop} {H : Hooks ε σ}

/-- Whether it returns or stops, the program leaves the flags alone. `E` are its errors. -/
def Quiet (E : Stop ε → Prop) (x : Code ε σ α) : Prop :=
  ∀ f, Triple (fun s => s.flags = f) x (fun _ s => s.flags = f) fun e s => E e ∧ s.flags = f

theorem Quiet.pure {a : α} : Quiet E (pure a : Code ε σ α) := fun _ => Triple.pure fun _ hs => hs

theorem Quiet.bind {x : Code ε σ α} {y : α → Code ε σ β} (hx : Quiet E x) (hy : ∀ a, Quiet E (y a)) :
    Quiet E (x >>= y) := fun f => (hx f).bind fun a => hy a f

theorem Quiet.ite {c : Prop} [Decidable c] {x y : Code ε σ α} (hx : Quiet E x) (hy : Quiet E y) :
    Quiet E (if c then x else y) := fun f => .ite (fun _ => hx f) fun _ => hy f

theorem Quiet.whenever {c : Prop} [Decidable c] {x : Code ε σ Unit} (hx : Quiet E x) : Quiet E (whenever c x) :=
  hx.ite .pure

theorem Quiet.modify {g : State σ → State σ} (h : ∀ s, (g s).flags = s.flags) :
    Quiet E (modify g : Code ε σ Unit) := fun _ => Triple.modify fun s hs => (h s).trans hs

theorem Quiet.get : Quiet E (get : Code ε σ (State σ)) := fun _ => Triple.get.after fun _ _ hs => hs.2

theorem Quiet.major {maj : Word} : Quiet E (major maj : Code ε σ Major) := fun _ _ hs => hs

theorem Quiet.minor {min : Word} : Quiet E (minor min : Code ε σ Minor) := fun _ _ hs => hs

theorem Quiet.set_major {maj : Word} {g : Major → Major} : Quiet E (set_major maj g : Code ε σ Unit) :=
  .modify fun _ => rfl

theorem Quiet.set_minor {min : Word} {g : Minor → Minor} : Quiet E (set_minor min g : Code ε σ Unit) :=
  .modify fun _ => rfl

theorem Quiet.warning : Quiet E (warning : Code ε σ Unit) := .modify fun _ => rfl

theorem Quiet.load {a : Word} : Quiet E (load a : Code ε σ (BitVec 8)) := fun _ _ hs => hs

theorem Quiet.store {a : Word} {c : BitVec 8} : Quiet E (store a c : Code ε σ Unit) := .modify fun _ => rfl

theorem Quiet.loop {turn : α → Code ε σ (α ⊕ β)} (hE : E .pending) (h : ∀ a, Quiet E (turn a)) (a : α) :
    Quiet E (pointer_loop turn a) := by
  intro f
  unfold pointer_loop
  refine Triple.iterate (I := fun (_ : α) (s : State σ) => s.flags = f) (fun a => ?_) (fun _ _ hs => ⟨hE, hs⟩) _ a
  exact (h a f).after fun r s hs => by cases r <;> exact hs

theorem Quiet.ends {x : Code ε σ α} (h : Quiet E x) {s : State σ} : Ends E x s fun _ _ => True :=
  (h s.flags).weaken (fun _ hs => hs ▸ rfl) (fun _ _ _ => trivial) fun _ _ hs => hs.1

/-! ## Between lock and unlock -/

variable {maj min first next new req size : Word} {w : Walk} {m : Major} {t : Minor}

theorem Quiet.call_alloc (hE : ∀ e, E (.hook e)) {n : Word} : Quiet E (call_alloc H n) := by
  intro f
  refine Triple.of_run (fun s a s' hs hrun => ?_) fun s e s' hs hrun => ?_
  · cases hcall : H.liballoc_alloc n (s.pages, s.memory) with
    | ok out =>
      simp only [Liballoc.call_alloc, hcall] at hrun
      cases hrun
      exact hs
    | error e => simp only [Liballoc.call_alloc, hcall, Prod.mk.injEq, reduceCtorEq, false_and] at hrun
  · cases hcall : H.liballoc_alloc n (s.pages, s.memory) with
    | ok out => simp only [Liballoc.call_alloc, hcall, Prod.mk.injEq, reduceCtorEq, false_and] at hrun
    | error e =>
      simp only [Liballoc.call_alloc, hcall] at hrun
      cases hrun
      exact ⟨hE e, hs⟩

theorem Quiet.call_free (hE : ∀ e, E (.hook e)) {n : Word} : Quiet E (call_free H maj n) := by
  intro f
  refine Triple.of_run (fun s a s' hs hrun => ?_) fun s e s' hs hrun => ?_
  · cases hcall : H.liballoc_free maj n (s.pages, s.memory) with
    | ok out =>
      simp only [Liballoc.call_free, hcall] at hrun
      cases hrun
      exact hs
    | error e => simp only [Liballoc.call_free, hcall, Prod.mk.injEq, reduceCtorEq, false_and] at hrun
  · cases hcall : H.liballoc_free maj n (s.pages, s.memory) with
    | ok out => simp only [Liballoc.call_free, hcall, Prod.mk.injEq, reduceCtorEq, false_and] at hrun
    | error e =>
      simp only [Liballoc.call_free, hcall] at hrun
      cases hrun
      exact ⟨hE e, hs⟩

theorem quiet_allocate_new_page (hE : ∀ e, E (.hook e)) : Quiet E (allocate_new_page H size) :=
  .bind (.call_alloc hE) fun _ =>
    .ite (.bind .warning fun _ => .pure)
      (.bind .set_major fun _ => .bind (.modify fun _ => rfl) fun _ => .pure)

theorem quiet_remember {diff : Word} : Quiet E (remember w diff : Code ε σ Walk) :=
  .ite (.bind (.modify fun _ => rfl) fun _ => .pure) .pure

theorem quiet_append_major (hE : ∀ e, E (.hook e)) : Quiet E (append_major H maj size) :=
  .bind (quiet_allocate_new_page hE) fun _ =>
    .bind .set_major fun _ => .bind (.whenever .set_major) fun _ => .pure

theorem quiet_take : Quiet E (take maj min size : Code ε σ Word) :=
  .bind .set_major fun _ => .bind (.modify fun _ => rfl) fun _ => .bind .store fun _ => .pure

theorem quiet_place_only : Quiet E (place_only maj req size : Code ε σ Word) :=
  .bind .set_major fun _ => .bind .set_minor fun _ => quiet_take

theorem quiet_place_first : Quiet E (place_first maj first req size : Code ε σ Word) :=
  .bind .set_minor fun _ => .bind .set_minor fun _ => .bind .set_major fun _ => .bind .set_minor fun _ => quiet_take

theorem quiet_place_last : Quiet E (place_last maj min new req size : Code ε σ Word) :=
  .bind .set_minor fun _ => .bind .set_minor fun _ => quiet_take

theorem quiet_place_between : Quiet E (place_between maj min next new req size : Code ε σ Word) :=
  .bind .set_minor fun _ => .bind .set_minor fun _ => .bind .set_minor fun _ => quiet_take

theorem quiet_minor_turn : Quiet E (minor_turn maj req size min : Code ε σ _) :=
  .ite .pure <| .bind .minor fun _ => .bind .major fun _ =>
    .ite (.ite (.bind quiet_place_last fun _ => .pure) .pure) (.ite (.bind quiet_place_between fun _ => .pure) .pure)

theorem quiet_restart : Quiet E (restart w : Code ε σ _) := .bind .get fun _ => .pure

theorem quiet_next_major (hE : ∀ e, E (.hook e)) : Quiet E (next_major H size w) :=
  .bind .major fun _ =>
    .ite (.ite quiet_restart (.bind (quiet_append_major hE) fun _ => .ite .pure .pure)) .pure

theorem quiet_in_major (hE : ∀ e, E (.hook e)) (hpending : E .pending) : Quiet E (in_major H req size w) :=
  .bind .major fun _ =>
    .ite (.bind quiet_place_only fun _ => .pure) <|
      .ite (.bind quiet_place_first fun _ => .pure) <|
        .bind (.loop hpending (fun _ => quiet_minor_turn) _) fun found => by
          cases found with
          | some p => exact .pure
          | none => exact quiet_next_major hE

theorem quiet_hop (hE : ∀ e, E (.hook e)) (hpending : E .pending) : Quiet E (hop H req size w) :=
  .bind .major fun _ =>
    .ite .pure (.ite quiet_restart (.bind (quiet_append_major hE) fun _ => .ite .pure (quiet_in_major hE hpending)))

theorem quiet_major_turn (hE : ∀ e, E (.hook e)) (hpending : E .pending) : Quiet E (major_turn H req size w) :=
  .ite .pure <| .bind .major fun _ => .bind quiet_remember fun _ =>
    .ite (quiet_hop hE hpending) (quiet_in_major hE hpending)

theorem quiet_start_walk : Quiet E (start_walk size : Code ε σ Walk) :=
  .bind .get fun _ => .ite .pure (.bind .major fun _ => .ite .pure .pure)

theorem quiet_ensure_root (hE : ∀ e, E (.hook e)) : Quiet E (ensure_root H size) :=
  .bind .get fun _ =>
    .ite (.bind (quiet_allocate_new_page hE) fun _ => .bind (.modify fun _ => rfl) fun _ => .pure) .pure

theorem quiet_search (hE : ∀ e, E (.hook e)) (hpending : E .pending) : Quiet E (search H req size) :=
  .bind quiet_start_walk fun _ => .loop hpending (fun _ => quiet_major_turn hE hpending) _

theorem quiet_lied {magic : Word} : Quiet E (lied magic : Code ε σ Unit) :=
  .bind (.modify fun _ => rfl) fun _ => .whenever (.modify fun _ => rfl)

theorem quiet_unlink_minor : Quiet E (unlink_minor min t : Code ε σ Unit) :=
  .bind (.modify fun _ => rfl) fun _ => .bind .set_major fun _ => .bind .set_minor fun _ =>
    .bind (.whenever .set_minor) fun _ => .bind (.whenever .set_minor) fun _ => .whenever .set_major

theorem quiet_unlink_major : Quiet E (unlink_major maj m : Code ε σ Unit) :=
  .bind (.modify fun _ => rfl) fun _ => .bind (.modify fun _ => rfl) fun _ =>
    .bind (.whenever .set_major) fun _ => .bind (.whenever .set_major) fun _ => .modify fun _ => rfl

theorem quiet_bet_on : Quiet E (bet_on maj m : Code ε σ Unit) :=
  .bind .get fun _ => .whenever (.bind .major fun _ => .whenever (.modify fun _ => rfl))

theorem quiet_release (hE : ∀ e, E (.hook e)) : Quiet E (release H min t) :=
  .bind quiet_unlink_minor fun _ => .bind .major fun _ =>
    .ite (.bind quiet_unlink_major fun _ => .call_free hE) quiet_bet_on

theorem quiet_UNALIGN {p : Word} : Quiet E (UNALIGN p : Code ε σ Word) := .bind .load fun _ => .pure

theorem quiet_memset (hpending : E .pending) {p n : Word} {c : BitVec 8} :
    Quiet E (liballoc_memset p c n : Code ε σ Word) := by
  refine .bind (.loop hpending (fun i => ?_) _) fun _ => .pure
  exact .ite (.bind .store fun _ => .pure) .pure

theorem quiet_memcpy (hpending : E .pending) {d p n : Word} : Quiet E (liballoc_memcpy d p n : Code ε σ Word) := by
  refine .bind (.loop hpending (fun c => ?_) _) fun c => .bind (.loop hpending (fun c => ?_) _) fun _ => .pure
  · exact .ite (.bind (.modify fun _ => rfl) fun _ => .pure) .pure
  · exact .ite (.bind .load fun _ => .bind .store fun _ => .pure) .pure

end

/-! ## Sections -/

/-- `k` sections one after the other. -/
def sections (k : Nat) : List (Lib.Nesting.Call Hal.Entry) := (List.replicate k (Hal.liballoc_section [])).flatten

/-- From `f` at least `lo` and at most `hi` sections lead to `f'`. -/
def Sections (lo hi : Nat) (f f' : Hal.Flags) : Prop :=
  ∃ k, lo ≤ k ∧ k ≤ hi ∧ f' = (sections k).foldl Hal.Flags.step f

section
variable {f f' f'' : Hal.Flags} {lo hi lo' hi' : Nat}

theorem Sections.refl : Sections 0 0 f f := ⟨0, Nat.le_refl _, Nat.le_refl _, rfl⟩

theorem Sections.one : Sections 1 1 f f.hal_disableInterrupts.hal_restoreInterrupts :=
  ⟨1, Nat.le_refl _, Nat.le_refl _, rfl⟩

theorem Sections.trans (h : Sections lo hi f f') (h' : Sections lo' hi' f' f'') :
    Sections (lo + lo') (hi + hi') f f'' := by
  obtain ⟨k, hlo, hhi, rfl⟩ := h
  obtain ⟨j, hlo', hhi', rfl⟩ := h'
  have hsplit : sections (k + j) = sections k ++ sections j := by
    unfold sections
    rw [List.replicate_add, List.flatten_append]
  exact ⟨k + j, by omega, by omega, by rw [hsplit, List.foldl_append]⟩

theorem Sections.mono (h : Sections lo hi f f') (hlo : lo' ≤ lo) (hhi : hi ≤ hi') : Sections lo' hi' f f' := by
  obtain ⟨k, h1, h2, hk⟩ := h
  exact ⟨k, by omega, by omega, hk⟩

/-- Interrupts are off after a section. -/
theorem Sections.off (h : Sections lo hi f f') (hpos : 0 < lo) : f'.enabled = false := by
  obtain ⟨k, hlo, -, rfl⟩ := h
  obtain ⟨k, rfl⟩ : ∃ j, k = j + 1 := ⟨k - 1, by omega⟩
  rw [sections, List.replicate_succ', List.flatten_append, List.foldl_append]
  exact Hal.enabled_after_leave _ .disable []

end

section
variable {ε σ α β : Type} {H : Hooks ε σ} {lo hi lo' hi' : Nat}

/-- A program that enters and leaves sections. -/
def Takes (lo hi : Nat) (x : Code ε σ α) : Prop :=
  ∀ f, Triple (fun s => s.flags = f) x (fun _ s => Sections lo hi f s.flags) fun _ _ => True

/-- A program that starts inside of a section. -/
def Held (lo hi : Nat) (x : Code ε σ α) : Prop :=
  ∀ f, Triple (fun s => s.flags = f.hal_disableInterrupts) x (fun _ s => Sections lo hi f s.flags) fun _ _ => True

theorem Takes.of_quiet {x : Code ε σ α} (hx : Quiet (fun _ => True) x) : Takes 0 0 x := fun f =>
  (hx f).weaken (fun _ hs => hs) (fun _ _ hs => hs ▸ .refl) fun _ _ _ => trivial

theorem Takes.mono {x : Code ε σ α} (h : Takes lo hi x) (hlo : lo' ≤ lo) (hhi : hi ≤ hi') : Takes lo' hi' x :=
  fun f => (h f).after fun _ _ hs => hs.mono hlo hhi

theorem Takes.bind {x : Code ε σ α} {y : α → Code ε σ β} (hx : Takes lo hi x) (hy : ∀ a, Takes lo' hi' (y a)) :
    Takes (lo + lo') (hi + hi') (x >>= y) := fun f =>
  (hx f).bind fun a => Triple.of_run
    (fun s _ _ hs hrun => hs.trans ((hy a s.flags).ok rfl hrun)) fun _ _ _ _ _ => trivial

theorem Takes.quiet {x : Code ε σ α} {y : α → Code ε σ β} (hx : Quiet (fun _ => True) x)
    (hy : ∀ a, Takes lo hi (y a)) : Takes lo hi (x >>= y) :=
  ((Takes.of_quiet hx).bind hy).mono (by omega) (by omega)

theorem Takes.lock {x : Code ε σ α} (h : Held lo hi x) : Takes lo hi (liballoc_lock >>= fun _ => x) := fun f =>
  Triple.bind (Q := fun _ s => s.flags = f.hal_disableInterrupts)
    (Triple.modify fun _ hs => congrArg Hal.Flags.hal_disableInterrupts hs) fun _ => h f

theorem Held.quiet {x : Code ε σ α} {y : α → Code ε σ β} (hx : Quiet (fun _ => True) x) (hy : ∀ a, Held lo hi (y a)) :
    Held lo hi (x >>= y) := fun f => ((hx f.hal_disableInterrupts).stops fun _ _ _ => trivial).bind fun a => hy a f

theorem Held.ite {c : Prop} [Decidable c] {x y : Code ε σ α} (hx : Held lo hi x) (hy : Held lo hi y) :
    Held lo hi (if c then x else y) := fun f => .ite (fun _ => hx f) fun _ => hy f

theorem Held.mono {x : Code ε σ α} (h : Held lo hi x) (hlo : lo' ≤ lo) (hhi : hi ≤ hi') : Held lo' hi' x :=
  fun f => (h f).after fun _ _ hs => hs.mono hlo hhi

theorem Held.last : Held 1 1 (liballoc_unlock : Code ε σ Unit) := fun f => Triple.modify fun s hs => by
  show Sections 1 1 f s.flags.hal_restoreInterrupts
  rw [hs]
  exact .one

theorem Held.unlock {y : Unit → Code ε σ α} (h : Takes lo hi (y ())) :
    Held (1 + lo) (1 + hi) (liballoc_unlock >>= y) := fun f =>
  (Held.last f).bind fun _ => Triple.of_run
    (fun s _ _ hs hrun => hs.trans ((h s.flags).ok rfl hrun)) fun _ _ _ _ _ => trivial

/-- The end of a section, with what is returned. -/
theorem Held.done {a : α} : Held 1 1 (liballoc_unlock >>= fun _ => (pure a : Code ε σ α)) := by
  have hlast : Takes 0 0 (pure a : Code ε σ α) := .of_quiet .pure
  exact Held.unlock (y := fun _ => pure a) hlast

/-! ## The calls -/

theorem kmalloc_sized_sections (n : Word) : Takes 1 1 (kmalloc_sized H n) := by
  refine .lock (.quiet (quiet_ensure_root fun _ => trivial) fun ready => .ite ?_ .done)
  exact .quiet (quiet_search (fun _ => trivial) trivial) fun _ => .done

/-- `kmalloc` takes the lock once, or a second time for the warning. -/
theorem kmalloc_sections (n : Word) : Takes 1 2 (kmalloc H n) := by
  unfold kmalloc
  split
  · refine .lock (.quiet .warning fun _ => ?_)
    exact (Held.unlock (kmalloc_sized_sections 1)).mono (by omega) (by omega)
  · exact (kmalloc_sized_sections n).mono (by omega) (by omega)

/-- `kfree` takes the lock once, but not for `NULL`. -/
theorem kfree_sections {p : Word} (hp : p ≠ NULL) : Takes 1 1 (kfree H p) := by
  rw [kfree, if_neg hp]
  refine .quiet quiet_UNALIGN fun p => .lock (.quiet .minor fun r => .ite ?_ ?_)
  · exact .quiet quiet_lied fun _ => .last
  · exact .quiet (quiet_release fun _ => trivial) fun _ => .last

/-- `kfree` has no loop: in whatever state, only the hook can stop it. -/
theorem kfree_returns (p : Word) (s : State σ) : Ends IsHook (kfree H p) s fun _ _ => True := by
  unfold kfree
  split
  · exact Quiet.warning.ends
  refine quiet_UNALIGN.ends.bind fun p s₁ _ => .next rfl (Quiet.minor.ends.bind fun r s₂ _ => ?_)
  split
  · exact quiet_lied.ends.bind fun _ _ _ => .of_ok rfl trivial
  · exact (quiet_release fun _ => trivial).ends.bind fun _ _ _ => .of_ok rfl trivial

theorem kfree_sections_le (p : Word) : Takes 0 1 (kfree H p) := by
  by_cases hp : p = NULL
  · rw [kfree, if_pos hp]
    exact (Takes.of_quiet .warning).mono (by omega) (by omega)
  · exact (kfree_sections hp).mono (by omega) (by omega)

theorem kcalloc_sections (nobj size : Word) : Takes 1 2 (kcalloc H nobj size) :=
  (kmalloc_sections _).bind fun _ => .quiet (quiet_memset trivial) fun _ => .of_quiet .pure

theorem move_to_new_sections (p size real_size : Word) : Takes 1 3 (move_to_new H p size real_size) := by
  have hrest : ∀ ptr, Takes 0 1 (liballoc_memcpy ptr p real_size >>= fun _ => kfree H p >>= fun _ =>
      (pure ptr : Code ε σ Word)) := fun ptr => .quiet (quiet_memcpy trivial) fun _ =>
    (kfree_sections_le p).bind fun _ => .of_quiet .pure
  exact (kmalloc_sections size).bind hrest

/-- `krealloc` takes the lock at least once, unless it frees `NULL`. -/
theorem krealloc_sections {p size : Word} (h : p ≠ NULL ∨ size ≠ 0) : Takes 1 4 (krealloc H p size) := by
  unfold krealloc
  split
  · rename_i hzero
    have hp : p ≠ NULL := h.resolve_right (not_not.mpr hzero)
    exact ((kfree_sections hp).bind fun _ => Takes.of_quiet .pure).mono (by omega) (by omega)
  split
  · exact (kmalloc_sections size).mono (by omega) (by omega)
  refine .quiet quiet_UNALIGN fun p => .lock (.quiet .minor fun r => .ite ?_ (.ite ?_ ?_))
  · exact .quiet quiet_lied fun _ => Held.done.mono (by omega) (by omega)
  · exact .quiet .set_minor fun _ => Held.done.mono (by omega) (by omega)
  · exact (Held.unlock (move_to_new_sections _ _ _)).mono (by omega) (by omega)

end

end Condor.Heap.Liballoc
