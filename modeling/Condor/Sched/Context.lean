import Condor.Sched.Queue

/-!
# Whose registers a preemption loads

`Ghost` records which process was loaded last and the frame each process is owed:
the one the scheduler was last entered with while that process was loaded, or
else its entry state. `CtxRun C` are the runs whose preemptions all meet `C`.

The scheduler saves a frame only if the process has a successor and is not
`INITIALIZED` any more; `PreemptOk` asks that it does whenever a process was
loaded, or that there is nothing to save. In runs of such preemptions every load
is the frame owed (`context_preserved`).
-/

namespace Condor.Sched

open Lib

variable {α : Type}

/-- The process loaded last, and the frame that each process is owed. -/
structure Ghost (α : Type) where
  loaded : Option α
  expected : α → StackState

/-- A preemption loads registers. -/
def Loads (s : State α) : Prop := s.p_current ≠ none ∧ s.is_schedueling_proc = false

instance (s : State α) [DecidableEq α] : Decidable (Loads s) := inferInstanceAs (Decidable (_ ∧ _))

section
variable [DecidableEq α]

/-- The scheduler is entered with frame `f`. -/
def Ghost.enter (g : Ghost α) (f : StackState) : Ghost α :=
  match g.loaded with
  | none => g
  | some p => { g with expected := Function.update g.expected p f }

/-- The ghost state after a preemption from `s` to `s'`. -/
def Ghost.preempt (g : Ghost α) (s s' : State α) (f : StackState) : Ghost α :=
  { g.enter f with loaded := if Loads s then s'.p_current else g.loaded }

/-- If a process was loaded, its frame is saved or is the one it has already. -/
def PreemptOk (s : State α) (g : Ghost α) (f : StackState) : Prop :=
  ∀ p, s.p_current = some p → g.loaded = some p →
    (s.proc p).next ≠ none ∧ (s.proc p).current_state ≠ .INITIALIZED ∨
      f.context = (s.proc p).regs.state.context

/-- Runs with the processes created so far and the ghost state, whose preemptions all meet `C`. -/
inductive CtxRun (C : State α → Ghost α → StackState → Prop) : State α → List α → Ghost α → Prop
  | boot {s e} (hs : Boot s) : CtxRun C s [] ⟨none, e⟩
  | create {s ps g p process} (hrun : CtxRun C s ps g) (hp : p ∉ ps) (hnext : process.next = none)
      (hinit : process.current_state = .INITIALIZED) :
      CtxRun C (process_create s p process) (ps ++ [p])
        { g with expected := Function.update g.expected p process.regs.state }
  | preempt {s s' ps g f out} (hrun : CtxRun C s ps g) (hc : C s g f)
      (hok : scheduler_preempt s f = some (s', out)) : CtxRun C s' ps (g.preempt s s' f)

/-! ## What the calls do to registers -/

variable {s s' : State α} {q : List α} {g : Ghost α} {f out : StackState}

/-- Two states of a process that differ at most in its link. -/
def SameTask (a b : Process α) : Prop := a.regs = b.regs ∧ a.current_state = b.current_state

theorem sameTask_set_next (a x : α) (m : Option α) : SameTask ((s.set_next a m).proc x) (s.proc x) := by
  unfold State.set_next
  by_cases h : x = a
  · subst h
    simp only [Function.update_self]
    exact ⟨rfl, rfl⟩
  · simp only [Function.update_of_ne h]
    exact ⟨rfl, rfl⟩

theorem sameTask_schedule (p x : α) : SameTask ((schedule_process s p).proc x) (s.proc x) := by
  unfold schedule_process
  split
  · exact ⟨rfl, rfl⟩
  · split
    · exact sameTask_set_next _ x _
    · exact sameTask_set_next _ x _

theorem sameTask_rotated (a z b x : α) : SameTask ((s.rotated a z b).proc x) (s.proc x) := by
  have h1 : SameTask ((s.rotated a z b).proc x) ((s.set_next z (some a)).proc x) :=
    sameTask_set_next a x none
  have h2 : SameTask ((s.set_next z (some a)).proc x) (s.proc x) := sameTask_set_next z x (some a)
  exact ⟨h1.1.trans h2.1, h1.2.trans h2.2⟩

/-- The registers after saving the frame `f` of `a`. -/
theorem save_registers_regs (a x : α) :
    ((save_registers s a f).proc x).regs.state =
      if x = a ∧ (s.proc a).current_state ≠ .INITIALIZED then f else (s.proc x).regs.state := by
  unfold save_registers State.set_regs State.set_state
  by_cases hi : (s.proc a).current_state ≠ .INITIALIZED
  · rw [if_pos hi]
    by_cases h : x = a
    · subst h
      simp [hi]
    · simp [h]
  · rw [if_neg hi]
    by_cases h : x = a
    · subst h
      simp [hi]
    · simp [h]

theorem sameTask_create {p x : α} {process : Process α} :
    SameTask ((process_create s p process).proc x) (if x = p then process else s.proc x) := by
  have hsame := sameTask_schedule (s := { s with proc := Function.update s.proc p process }) p x
  have hrec : (if x = p then process else s.proc x) = Function.update s.proc p process x :=
    (Function.update_apply ..).symm
  rw [hrec]
  exact hsame

theorem p_current_create {p c : α} {process : Process α} (h : s.p_current = some c) :
    (process_create s p process).p_current = some c := by
  unfold process_create schedule_process
  rw [show (State.p_current { s with proc := Function.update s.proc p process }) = some c from h]
  cases hl : s.p_last with
  | none => rfl
  | some z => rfl

/-! ## The invariant -/

/-- The queue holds the processes created; the one loaded last is the current one; before the first
load nothing has run; each process's saved frame is the one it is owed. -/
structure Inv (s : State α) (q : List α) (g : Ghost α) : Prop where
  queue : Represents s q
  loaded : ∀ p, g.loaded = some p → s.p_current = some p
  initial : g.loaded = none → ∀ p ∈ q, (s.proc p).current_state = .INITIALIZED
  owed : ∀ p ∈ q, (s.proc p).regs.state.context = (g.expected p).context

omit [DecidableEq α] in
theorem Inv.boot (hs : Boot s) (e : α → StackState) : Inv s [] ⟨none, e⟩ where
  queue := hs.represents
  loaded _ h := nomatch h
  initial _ _ h := nomatch h
  owed _ h := nomatch h

theorem Inv.create {p : α} {process : Process α} (hi : Inv s q g) (hp : p ∉ q)
    (hnext : process.next = none) (hinit : process.current_state = .INITIALIZED) :
    Inv (process_create s p process) (q ++ [p])
      { g with expected := Function.update g.expected p process.regs.state } := by
  have hold : ∀ x ∈ q ++ [p], x ≠ p → x ∈ q := fun x hx hne => by simpa [hne] using hx
  refine ⟨hi.queue.create hp hnext, fun c hc => p_current_create (hi.loaded c hc),
    fun hg x hx => ?_, fun x hx => ?_⟩
  · rw [sameTask_create.2]
    by_cases h : x = p
    · rw [if_pos h, hinit]
    · rw [if_neg h]
      exact hi.initial hg x (hold x hx h)
  · show _ = (Function.update g.expected p process.regs.state x).context
    rw [sameTask_create.1, Function.update_apply]
    by_cases h : x = p
    · rw [if_pos h, if_pos h]
    · rw [if_neg h, if_neg h]
      exact hi.owed x (hold x hx h)

/-- Entering the scheduler changes what the loaded process is owed. -/
theorem enter_expected (x : α) :
    (g.enter f).expected x = if g.loaded = some x then f else g.expected x := by
  unfold Ghost.enter
  cases hl : g.loaded with
  | none => simp
  | some p =>
    by_cases h : x = p
    · subst h
      simp
    · simp [h, Ne.symm h]

/-- After saving, every process has the registers it is owed. -/
theorem Inv.owed_save {a : α} (hi : Inv s q g) (hok : PreemptOk s g f) (ha : s.p_current = some a)
    {x : α} (hx : x ∈ q) :
    ((save_registers s a f).proc x).regs.state.context = ((g.enter f).expected x).context := by
  have hloaded : g.loaded = some x → x = a := fun h => by
    have := hi.loaded x h
    rw [ha] at this
    exact (Option.some.inj this).symm
  rw [save_registers_regs, enter_expected]
  by_cases hg : g.loaded = some x
  · obtain rfl := hloaded hg
    rw [if_pos hg]
    by_cases hinit : (s.proc x).current_state ≠ .INITIALIZED
    · rw [if_pos ⟨rfl, hinit⟩]
    · rw [if_neg fun h => hinit h.2]
      rcases hok x ha hg with ⟨-, hne⟩ | hf
      · exact absurd hne hinit
      · exact hf.symm
  · rw [if_neg hg]
    by_cases h : x = a ∧ (s.proc a).current_state ≠ .INITIALIZED
    · -- a process that runs was loaded before
      obtain ⟨rfl, hne⟩ := h
      cases hl : g.loaded with
      | none => exact absurd (hi.initial hl x hx) hne
      | some c =>
        have := hi.loaded c hl
        rw [ha] at this
        rw [hl, Option.some.inj this] at hg
        exact absurd rfl hg
    · rw [if_neg h]
      exact hi.owed x hx

/-- One process: nothing is saved, and its registers are loaded again. -/
theorem Inv.preempt_single {a : α} (hi : Inv s [a] g) (hok : PreemptOk s g f) :
    Inv s [a] (g.preempt s s f) ∧
      (restore_registers s a f).context = ((g.enter f).expected a).context := by
  have ha : s.p_current = some a := hi.queue.chain.1
  have hnext : (s.proc a).next = none := hi.queue.chain.2
  have howed : (s.proc a).regs.state.context = ((g.enter f).expected a).context := by
    rw [enter_expected]
    by_cases hg : g.loaded = some a
    · rw [if_pos hg]
      exact ((hok a ha hg).resolve_left fun h => h.1 hnext).symm
    · rw [if_neg hg]
      exact hi.owed a (by simp)
  have hloads : Loads s := ⟨by simp [ha], hi.queue.idle⟩
  have hl : (g.preempt s s f).loaded = some a := by rw [Ghost.preempt, if_pos hloads, ha]
  refine ⟨⟨hi.queue, fun p hp => ?_, fun h => ?_, fun p hp => ?_⟩, howed⟩
  · rw [hl] at hp
    rw [ha, hp]
  · rw [hl] at h
    cases h
  · rw [List.mem_singleton.mp hp]
    exact howed

/-- Two processes or more: the head is saved and the next one loaded. -/
theorem Inv.preempt_rotate {a z b : α} {l : List α} (hi : Inv s (a :: (l ++ [z])) g)
    (hok : PreemptOk s g f) (hb : (l ++ [z]).head? = some b)
    (hrep : Represents ((save_registers s a f).rotated a z b) ((l ++ [z]) ++ [a])) :
    Inv ((save_registers s a f).rotated a z b) ((l ++ [z]) ++ [a])
        (g.preempt s ((save_registers s a f).rotated a z b) f) ∧
      (restore_registers ((save_registers s a f).rotated a z b) b f).context =
        ((g.enter f).expected b).context := by
  have ha : s.p_current = some a := hi.queue.chain.1
  have howed : ∀ p ∈ (l ++ [z]) ++ [a],
      (((save_registers s a f).rotated a z b).proc p).regs.state.context =
        ((g.enter f).expected p).context := fun p hp => by
    rw [(sameTask_rotated a z b p).1]
    exact hi.owed_save hok ha (by simpa [or_comm, or_assoc, or_left_comm] using hp)
  have hloads : Loads s := ⟨by simp [ha], hi.queue.idle⟩
  have hcur : ((save_registers s a f).rotated a z b).p_current = some b := by
    rw [hrep.chain.head_eq, List.head?_append, hb]
    rfl
  have hl : (g.preempt s ((save_registers s a f).rotated a z b) f).loaded = some b := by
    rw [Ghost.preempt, if_pos hloads, hcur]
  refine ⟨⟨hrep, fun p hp => ?_, fun h => ?_, howed⟩, howed b ?_⟩
  · rw [hl] at hp
    rw [hcur, hp]
  · rw [hl] at h
    cases h
  · exact List.mem_append_left _ (List.mem_of_mem_head? hb)

/-- A preemption that is `PreemptOk` keeps the invariant, and loads the frame that is owed. -/
theorem Inv.preempt (hi : Inv s q g) (hok : PreemptOk s g f)
    (hp : scheduler_preempt s f = some (s', out)) :
    (∃ q', q'.Perm q ∧ Inv s' q' (g.preempt s s' f)) ∧
      ∀ p, Loads s → s'.p_current = some p → out.context = ((g.enter f).expected p).context := by
  rcases hi.queue.preempt_cases f with ⟨rfl, hs⟩ | ⟨a, rfl, hs⟩ | ⟨a, l, z, b, rfl, hb, hs, hrep⟩
  all_goals
    rw [hs] at hp
    cases hp
  · have hcur : s.p_current = none := hi.queue.chain
    have hg : g.loaded = none := by
      cases hl : g.loaded with
      | none => rfl
      | some p => cases hcur.symm.trans (hi.loaded p hl)
    have henter : g.enter f = g := by
      unfold Ghost.enter
      rw [hg]
    have hsame : g.preempt s s f = g := by
      rw [Ghost.preempt, if_neg fun h => h.1 hcur, henter]
    rw [hsame]
    exact ⟨⟨[], List.Perm.refl _, hi⟩, fun p hload => absurd hcur hload.1⟩
  · obtain ⟨hinv, hout⟩ := hi.preempt_single hok
    refine ⟨⟨[a], List.Perm.refl _, hinv⟩, fun p _ hcur => ?_⟩
    rw [hi.queue.chain.1] at hcur
    cases hcur
    exact hout
  · obtain ⟨hinv, hout⟩ := hi.preempt_rotate hok hb hrep
    refine ⟨⟨_, List.perm_append_comm, hinv⟩, fun p _ hcur => ?_⟩
    rw [hrep.chain.head_eq, List.head?_append, hb] at hcur
    cases hcur
    exact hout

/-- The invariant holds along every run whose preemptions are `PreemptOk`. -/
theorem CtxRun.inv {ps : List α} (hrun : CtxRun PreemptOk s ps g) : ∃ q, q.Perm ps ∧ Inv s q g := by
  induction hrun with
  | boot hs => exact ⟨[], List.Perm.refl _, .boot hs _⟩
  | create _ hp hnext hinit ih =>
    obtain ⟨q, hq, hi⟩ := ih
    exact ⟨_, hq.append_right _, hi.create (fun hmem => hp (hq.mem_iff.mp hmem)) hnext hinit⟩
  | preempt _ hc hok ih =>
    obtain ⟨q, hq, hi⟩ := ih
    obtain ⟨⟨q', hq', hi'⟩, -⟩ := hi.preempt hc hok
    exact ⟨q', hq'.trans hq, hi'⟩

/-- **Context preservation.** In every run whose preemptions are `PreemptOk`, a preemption that loads
the registers of `p` loads, up to the interrupt's number, the frame with which the scheduler was
last entered while `p` was loaded, or the entry state of `p` if it was never loaded before. -/
theorem context_preserved {ps : List α} (hrun : CtxRun PreemptOk s ps g) (hok : PreemptOk s g f)
    (hp : scheduler_preempt s f = some (s', out)) (hload : Loads s) {p : α}
    (hcur : s'.p_current = some p) : out.context = ((g.enter f).expected p).context := by
  obtain ⟨q, -, hi⟩ := hrun.inv
  exact (hi.preempt hok hp).2 p hload hcur

end

/-- The state after one process was created and loaded. -/
theorem CtxRun.exists_loaded (C : State Nat → Ghost Nat → StackState → Prop)
    (hC : ∀ s g f, g.loaded = none → C s g f) :
    ∃ s g, CtxRun C s [1] g ∧ Loads s ∧ g.loaded = some 1 ∧ s.p_current = some 1 ∧
      (s.proc 1).next = none ∧
      (s.proc 1).regs.state = (entry_regs 0x1000#32 0x2000#32 0 false).state := by
  have hboot : Boot (⟨none, none, false, fun _ => new_process 0 0 0 false, 0⟩ : State Nat) :=
    ⟨rfl, rfl, rfl⟩
  have hrun : CtxRun C _ _ ⟨none, fun _ => .zero⟩ := .boot hboot
  have hrun : CtxRun C (process_create _ 1 (new_process 0x1000#32 0x2000#32 0 false)) [1] _ :=
    hrun.create (by decide) rfl rfl
  have hrun' := hrun.preempt (f := .zero) (hC _ _ _ rfl) rfl
  exact ⟨_, _, hrun', by decide, by decide, rfl, rfl, rfl⟩

/-- The next preemption saves the frame of `p`. -/
def Saves (s : State α) (p : α) : Prop :=
  s.p_current = some p ∧ (s.proc p).next ≠ none ∧ (s.proc p).current_state ≠ .INITIALIZED

instance (s : State α) (p : α) [DecidableEq α] : Decidable (Saves s p) := inferInstanceAs (Decidable (_ ∧ _))

theorem Saves.preemptOk [DecidableEq α] {s : State α} {g : Ghost α} {f : StackState} {p : α} (h : Saves s p) :
    PreemptOk s g f := fun p' hp' _ => by
  cases h.1.symm.trans hp'
  exact .inl h.2

/-- A frame that was interrupted at `eip`. -/
def interrupted_at (eip : BitVec 32) : StackState := { StackState.zero with eip := eip }

/-- Two processes take turns: the first one is preempted at `0x1234`, the second one at `0x5678`, and the first
one goes on where it was. -/
theorem context_preserved_switch_back : ∃ (s s' : State Nat) (g : Ghost Nat) (out : StackState),
    CtxRun PreemptOk s [1, 2] g ∧ scheduler_preempt s (interrupted_at 0x5678#32) = some (s', out) ∧
      s'.p_current = some 1 ∧ out.context = ((g.enter (interrupted_at 0x5678#32)).expected 1).context ∧
      out.eip = 0x1234#32 := by
  let boot : State Nat := ⟨none, none, false, fun _ => new_process 0 0 0 false, 0⟩
  let entry := new_process (α := Nat) 0x3000#32 0x4000#32 0 false
  let created := process_create (process_create boot 1 (new_process 0x1000#32 0x2000#32 0 false)) 2 entry
  have hcalls : (do
      let a ← scheduler_preempt created .zero
      let b ← scheduler_preempt a.1 entry.regs.state
      let c ← scheduler_preempt b.1 (interrupted_at 0x1234#32)
      let d ← scheduler_preempt c.1 (interrupted_at 0x5678#32)
      pure (decide (a.1.p_current = some 2 ∧ (a.1.proc 2).regs.state = entry.regs.state ∧ Saves b.1 1 ∧
        (Saves c.1 2 ∧ Loads c.1) ∧ d.1.p_current = some 1 ∧ d.2.eip = 0x1234#32))) = some true := by
    decide +kernel
  obtain ⟨⟨a, a'⟩, ha, hcalls⟩ := Option.bind_eq_some_iff.mp hcalls
  obtain ⟨⟨b, b'⟩, hb, hcalls⟩ := Option.bind_eq_some_iff.mp hcalls
  obtain ⟨⟨c, c'⟩, hc, hcalls⟩ := Option.bind_eq_some_iff.mp hcalls
  obtain ⟨⟨d, d'⟩, hd, hcalls⟩ := Option.bind_eq_some_iff.mp hcalls
  obtain ⟨hcur2, hregs2, hsaves1, ⟨hsaves2, hloads⟩, hcur1, heip⟩ := of_decide_eq_true (Option.some.inj hcalls)
  have hrun : CtxRun PreemptOk boot [] ⟨none, fun _ => .zero⟩ := .boot ⟨rfl, rfl, rfl⟩
  have hone : CtxRun PreemptOk (process_create boot 1 (new_process 0x1000#32 0x2000#32 0 false)) [1] _ :=
    hrun.create (by decide) rfl rfl
  have hcreated : CtxRun PreemptOk created [1, 2] _ := hone.create (by decide) rfl rfl
  -- the first one is taken for running, although it has not been loaded yet
  have hrun1 := hcreated.preempt (fun _ _ hloaded => nomatch hloaded) ha
  have hrun2 := hrun1.preempt (fun p hp _ => by cases hcur2.symm.trans hp; exact .inr (by rw [hregs2])) hb
  have hrun3 := hrun2.preempt hsaves1.preemptOk hc
  exact ⟨c, d, _, d', hrun3, hd, hcur1, context_preserved hrun3 hsaves2.preemptOk hd hloads hcur1, heip⟩

/-- The only process is preempted at `0x1234`, and its entry state is loaded again: the frame is
never saved, since it has no successor. -/
theorem single_process_loses_context :
    ∃ (s s' : State Nat) (ps : List Nat) (g : Ghost Nat) (f out : StackState),
      CtxRun (fun _ _ _ => True) s ps g ∧ Loads s ∧ scheduler_preempt s f = some (s', out) ∧
        s'.p_current = some 1 ∧ g.loaded = some 1 ∧ f.eip = 0x1234#32 ∧ out.eip = 0x1000#32 ∧
        out.context ≠ ((g.enter f).expected 1).context := by
  obtain ⟨s, g, hrun, hload, hg, hcur, hnext, hregs⟩ :=
    CtxRun.exists_loaded (fun _ _ _ => True) fun _ _ _ _ => trivial
  let f : StackState := { StackState.zero with eip := 0x1234#32 }
  have hp : scheduler_preempt s f = _ := scheduler_preempt_single hcur hload.2 hnext
  have heip : (restore_registers s 1 f).eip = 0x1000#32 := by
    show (s.proc 1).regs.state.eip = _
    rw [hregs]
    rfl
  refine ⟨s, s, [1], g, f, _, hrun, hload, hp, hcur, hg, rfl, heip, fun h => ?_⟩
  rw [enter_expected, if_pos hg] at h
  have hpc : (restore_registers s 1 f).eip = f.eip := congrArg StackState.eip h
  rw [heip] at hpc
  exact absurd hpc (by decide)

end Condor.Sched
