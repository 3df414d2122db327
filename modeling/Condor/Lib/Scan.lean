import Mathlib.Data.Finset.Card
import Mathlib.Data.List.Flatten
import Mathlib.Data.List.ReduceOption
import Mathlib.Order.Interval.Finset.Nat

/-!
# The first run of free positions along a trace

A first-fit search visits positions in some order and counts the free ones in
a row: a position that is not free sets the counter to zero, and so does an
explicit reset (`none` in the trace). The first time `n` free positions have
been counted, it answers the position at which the counter left zero.

`scan free n l` is that counter over the trace `l`; leaving early carries the
search's answer. `FirstRun free k l w` says `w` is the first `k` successive free
positions of `l`, resets counting as positions that are not free.
`outcome_scan_iff` identifies the two. The trace order is arbitrary and may skip
or repeat positions, so the run found is a range of consecutive positions only
if the trace visits them so.
-/

namespace Condor.Lib.Scan

variable {α : Type}

/-- The counter: the first position of the current run and its length. -/
structure Run (α : Type) where
  base : α
  num : Nat

/-- Visit one position (`none` resets the counter). -/
def step [Inhabited α] (free : α → Bool) (n : Nat) (st : Run α) : Option α → Except (Option α) (Run α)
  | none => .ok ⟨default, 0⟩
  | some b =>
    if free b then
      let base := if st.num = 0 then b else st.base
      if n ≤ st.num + 1 then .error (some base) else .ok ⟨base, st.num + 1⟩
    else .ok ⟨st.base, 0⟩

/-- Visit a trace from a given counter. -/
def scanFrom [Inhabited α] (free : α → Bool) (n : Nat) (st : Run α) (l : List (Option α)) :
    Except (Option α) (Run α) :=
  l.foldlM (step free n) st

theorem scanFrom_append [Inhabited α] (free : α → Bool) (n : Nat) (st : Run α)
    (l l' : List (Option α)) :
    scanFrom free n st (l ++ l') = scanFrom free n st l >>= fun st => scanFrom free n st l' :=
  List.foldlM_append

/-- Visit a trace from a zero counter. -/
def scan [Inhabited α] (free : α → Bool) (n : Nat) (l : List (Option α)) :
    Except (Option α) (Run α) :=
  scanFrom free n ⟨default, 0⟩ l

/-- The scan looks at the positions of its trace only. -/
theorem scan_congr [Inhabited α] {free free' : α → Bool} {n : Nat} {l : List (Option α)}
    (h : ∀ b, some b ∈ l → free b = free' b) : scan free n l = scan free' n l := by
  have hfrom : ∀ st, scanFrom free n st l = scanFrom free' n st l := by
    induction l with
    | nil => exact fun _ => rfl
    | cons x l ih =>
      intro st
      have hx : step free n st x = step free' n st x := by
        cases x with
        | none => rfl
        | some b => simp only [step, h b (by simp)]
      simp only [scanFrom, List.foldlM_cons, hx]
      exact congrArg _ (funext fun st' => ih (fun b hb => h b (by simp [hb])) st')
  exact hfrom _

/-- The answer of a search: falling off the end of the loops is no answer. -/
def outcome : Except (Option α) (Run α) → Option α
  | .error r => r
  | .ok _ => none

/-- The trace `v` ends with the free positions `w`. -/
def FreeEnd (free : α → Bool) (v : List (Option α)) (w : List α) : Prop :=
  w.map some <:+ v ∧ ∀ b ∈ w, free b = true

/-- `w` is the first run of `k` successive free positions of `l`. -/
def FirstRun (free : α → Bool) (k : Nat) (l : List (Option α)) (w : List α) : Prop :=
  ∃ v q, l = v ++ q ∧ FreeEnd free v w ∧ w.length = k ∧
    ∀ v' w', v' <+: l → v'.length < v.length → FreeEnd free v' w' → w'.length ≠ k

/-! ## Free ends -/

theorem FreeEnd.nil (free : α → Bool) (v : List (Option α)) : FreeEnd free v [] :=
  ⟨List.nil_suffix, fun _ h => nomatch h⟩

/-- A free end of a longer trace is empty or extends a free end by the last position. -/
theorem freeEnd_concat {free : α → Bool} {v : List (Option α)} {x : Option α} {w : List α} :
    FreeEnd free (v ++ [x]) w ↔
      w = [] ∨ ∃ t b, w = t ++ [b] ∧ x = some b ∧ free b = true ∧ FreeEnd free v t := by
  constructor
  · rintro ⟨hs, hf⟩
    rcases List.eq_nil_or_concat w with rfl | ⟨t, b, rfl⟩
    · exact .inl rfl
    · right
      simp only [List.concat_eq_append, List.map_append, List.map_cons, List.map_nil] at hs
      obtain ⟨p, hp⟩ := hs
      rw [← List.append_assoc] at hp
      obtain ⟨h1, h2⟩ := List.append_inj' hp rfl
      simp only [List.cons.injEq, and_true] at h2
      refine ⟨t, b, by simp, h2.symm, hf b (by simp), ⟨p, h1⟩, fun c hc => hf c (by simp [hc])⟩
  · rintro (rfl | ⟨t, b, rfl, rfl, hb, ⟨p, hp⟩, hf⟩)
    · exact FreeEnd.nil free _
    · refine ⟨⟨p, by simp [← hp]⟩, fun c hc => ?_⟩
      rcases List.mem_append.mp hc with hc | hc
      · exact hf c hc
      · rwa [List.mem_singleton.mp hc]

/-- A position that is not free ends no run. -/
theorem FreeEnd.eq_nil {free : α → Bool} {v : List (Option α)} {x : Option α} {w : List α}
    (hx : ∀ b, x = some b → free b = false) (h : FreeEnd free (v ++ [x]) w) : w = [] := by
  rcases freeEnd_concat.mp h with rfl | ⟨t, b, -, rfl, hb, -⟩
  · rfl
  · rw [hx b rfl] at hb
    cases hb

/-- A trace has at most one first run. -/
theorem FirstRun.unique {free : α → Bool} {k : Nat} {l : List (Option α)} {w w' : List α}
    (h : FirstRun free k l w) (h' : FirstRun free k l w') : w = w' := by
  obtain ⟨v, q, hl, hw, hlen, hmin⟩ := h
  obtain ⟨v', q', hl', hw', hlen', hmin'⟩ := h'
  have hp : v <+: l := ⟨q, hl.symm⟩
  have hp' : v' <+: l := ⟨q', hl'.symm⟩
  have hv : v.length = v'.length := by
    rcases Nat.lt_trichotomy v.length v'.length with hlt | heq | hgt
    · exact absurd hlen (hmin' v w hp hlt hw)
    · exact heq
    · exact absurd hlen' (hmin v' w' hp' hgt hw')
  have hvv : v = v' := (List.prefix_of_prefix_length_le hp hp' (Nat.le_of_eq hv)).eq_of_length hv
  subst hvv
  have hs : w.map some <:+ w'.map some :=
    List.suffix_of_suffix_length_le hw.1 hw'.1 (by simp [hlen, hlen'])
  exact (List.map_inj_right fun _ _ => Option.some.inj).mp
    (hs.eq_of_length (by simp [hlen, hlen']))

/-- Some run exists as soon as some prefix of the trace ends with one. -/
theorem exists_firstRun {free : α → Bool} {k : Nat} {l v : List (Option α)} {w : List α}
    (hv : v <+: l) (hw : FreeEnd free v w) (hk : w.length = k) : ∃ w', FirstRun free k l w' := by
  classical
  have hex : ∃ n v w, v <+: l ∧ v.length = n ∧ FreeEnd free v w ∧ w.length = k :=
    ⟨_, v, w, hv, rfl, hw, hk⟩
  obtain ⟨v', w', ⟨q, hq⟩, hlen, hw', hk'⟩ := Nat.find_spec hex
  refine ⟨w', v', q, hq.symm, hw', hk', fun v'' w'' hv'' hlt hw'' hk'' => ?_⟩
  exact Nat.find_min hex (by omega) ⟨v'', w'', hv'', rfl, hw'', hk''⟩

theorem FirstRun.free {free : α → Bool} {k : Nat} {l : List (Option α)} {w : List α}
    (h : FirstRun free k l w) {b : α} (hb : b ∈ w) : free b = true := by
  obtain ⟨v, q, -, hw, -⟩ := h
  exact hw.2 b hb

theorem FirstRun.length {free : α → Bool} {k : Nat} {l : List (Option α)} {w : List α}
    (h : FirstRun free k l w) : w.length = k := by
  obtain ⟨v, q, -, -, hk, -⟩ := h
  exact hk

/-- A run of one position: the first free position of the trace. -/
theorem FirstRun.first {free : α → Bool} {l : List (Option α)} {w : List α}
    (h : FirstRun free 1 l w) :
    ∃ p b q, w = [b] ∧ l.reduceOption = p ++ b :: q ∧ free b = true ∧
      ∀ x ∈ p, free x = false := by
  obtain ⟨v, q, hl, ⟨⟨v0, hv0⟩, hf⟩, hk, hmin⟩ := h
  obtain ⟨b, rfl⟩ := List.length_eq_one_iff.mp hk
  refine ⟨v0.reduceOption, b, q.reduceOption, rfl, ?_, hf b (by simp), fun x hx => ?_⟩
  · rw [hl, ← hv0, List.reduceOption_append, List.reduceOption_append]
    simp [List.reduceOption_cons_of_some]
  · obtain ⟨a, c, hac⟩ := List.append_of_mem (List.reduceOption_mem_iff.mp hx)
    by_contra hx'
    refine hmin (a ++ [some x]) [x] ⟨c ++ [some b] ++ q, ?_⟩ ?_ ⟨⟨a, rfl⟩, ?_⟩ rfl
    · rw [hl, ← hv0, hac]; simp
    · rw [← hv0, hac]; simp
    · simpa using hx'

/-- A run is a block of successive positions of the trace. -/
theorem FirstRun.positions {free : α → Bool} {k : Nat} {l : List (Option α)} {w : List α}
    (h : FirstRun free k l w) : ∃ p q, l.reduceOption = p ++ w ++ q := by
  obtain ⟨v, q, rfl, ⟨⟨p, rfl⟩, -⟩, -⟩ := h
  refine ⟨p.reduceOption, q.reduceOption, ?_⟩
  rw [List.reduceOption_append, List.reduceOption_append]
  congr 2
  rw [List.reduceOption, List.filterMap_map]
  simp

/-- A run lies on the trace. -/
theorem FirstRun.mem {free : α → Bool} {k : Nat} {l : List (Option α)} {w : List α}
    (h : FirstRun free k l w) {b : α} (hb : b ∈ w) : b ∈ l.reduceOption := by
  obtain ⟨p, q, hl⟩ := h.positions
  rw [hl]
  simp [hb]

/-- The counter after visiting `v`: the longest free end, and its first position. -/
structure Counts (free : α → Bool) (v : List (Option α)) (st : Run α) : Prop where
  longest : ∃ w, FreeEnd free v w ∧ w.length = st.num ∧ (st.num ≠ 0 → w.head? = some st.base)
  le : ∀ w, FreeEnd free v w → w.length ≤ st.num

theorem Counts.init [Inhabited α] (free : α → Bool) : Counts free [] ⟨default, 0⟩ where
  longest := ⟨[], FreeEnd.nil free [], rfl, fun h => absurd rfl h⟩
  le w h := by
    obtain ⟨p, hp⟩ := h.1
    have : w.map some = [] := (List.append_eq_nil_iff.mp hp).2
    simp [List.map_eq_nil_iff.mp this]

/-- A blocked position puts the counter back to zero. -/
theorem Counts.blocked {free : α → Bool} {v : List (Option α)} {x : Option α} (b : α)
    (hx : ∀ b, x = some b → free b = false) : Counts free (v ++ [x]) ⟨b, 0⟩ where
  longest := ⟨[], FreeEnd.nil free _, rfl, fun h => absurd rfl h⟩
  le w h := by simp [h.eq_nil hx]

/-- The run that ends with the free position `b`. -/
theorem Counts.extend {free : α → Bool} {v : List (Option α)} {st : Run α} {b : α}
    (h : Counts free v st) (hb : free b = true) :
    ∃ w, FreeEnd free (v ++ [some b]) w ∧ w.length = st.num + 1 ∧
      w.head? = some (if st.num = 0 then b else st.base) := by
  obtain ⟨w, hw, hlen, hhead⟩ := h.longest
  refine ⟨w ++ [b], freeEnd_concat.mpr (.inr ⟨w, b, rfl, rfl, hb, hw⟩), by simp [hlen], ?_⟩
  by_cases h0 : st.num = 0
  · rw [List.length_eq_zero_iff.mp (hlen.trans h0), if_pos h0]
    rfl
  · rw [if_neg h0, List.head?_append, hhead h0]
    rfl

theorem Counts.extend_le {free : α → Bool} {v : List (Option α)} {st : Run α} {x : Option α}
    (h : Counts free v st) {w : List α} (hw : FreeEnd free (v ++ [x]) w) :
    w.length ≤ st.num + 1 := by
  rcases freeEnd_concat.mp hw with rfl | ⟨t, b, rfl, -, -, ht⟩
  · simp
  · have := h.le t ht
    simp only [List.length_append, List.length_singleton]
    omega

theorem Counts.visit {free : α → Bool} {v : List (Option α)} {st : Run α} {b : α}
    (h : Counts free v st) (hb : free b = true) :
    Counts free (v ++ [some b]) ⟨if st.num = 0 then b else st.base, st.num + 1⟩ where
  longest := by
    obtain ⟨w, hw, hlen, hhead⟩ := h.extend hb
    exact ⟨w, hw, hlen, fun _ => hhead⟩
  le _ hw := h.extend_le hw

/-! ## The scan finds the first run -/

variable [Inhabited α]

/-- The search asks for `n` positions; with `n = 0` it stops at the first free one. -/
def need (n : Nat) : Nat := max 1 n

theorem need_pos (n : Nat) : 0 < need n := by unfold need; omega

/-- From a counter that is correct for `v` and below the target, the scan of `l` answers `b`
exactly when the first run of `v ++ l` starts at `b`. -/
theorem outcome_scanFrom_iff {free : α → Bool} {n : Nat} {l v : List (Option α)} {st : Run α}
    {b : α} (hc : Counts free v st) (hlt : st.num < need n)
    (hno : ∀ v' w', v' <+: v → FreeEnd free v' w' → w'.length ≠ need n) :
    outcome (scanFrom free n st l) = some b ↔
      ∃ w, FirstRun free (need n) (v ++ l) w ∧ w.head? = some b := by
  induction l generalizing v st with
  | nil =>
    constructor
    · intro h; cases h
    · rintro ⟨w, ⟨v', q, hv, hw, hlen, -⟩, -⟩
      exact absurd hlen (hno v' w ⟨q, by rw [← hv, List.append_nil]⟩ hw)
  | cons x l ih =>
    -- no run ends before `x`; if none ends at `x` either, the rest decides
    have hcont : ∀ st', Counts free (v ++ [x]) st' → st'.num < need n →
        step free n st x = .ok st' →
        (outcome (scanFrom free n st (x :: l)) = some b ↔
          ∃ w, FirstRun free (need n) (v ++ x :: l) w ∧ w.head? = some b) := by
      intro st' hc' hlt' hs
      have hno' : ∀ v' w', v' <+: v ++ [x] → FreeEnd free v' w' → w'.length ≠ need n := by
        intro v' w' hv' hw'
        rcases List.prefix_concat_iff.mp hv' with rfl | hv'
        · have := hc'.le w' hw'
          omega
        · exact hno v' w' hv' hw'
      have := ih hc' hlt' hno'
      rw [List.append_assoc, List.singleton_append] at this
      rw [← this, scanFrom, List.foldlM_cons, hs]
      rfl
    cases x with
    | none => exact hcont _ (Counts.blocked _ fun _ h => nomatch h) (need_pos n) rfl
    | some c =>
      by_cases hf : free c = true
      · by_cases hn : n ≤ st.num + 1
        · -- the run is complete at `c`
          obtain ⟨w, hw, hlen, hhead⟩ := hc.extend hf
          have hk : st.num + 1 = need n := by unfold need at hlt ⊢; omega
          have hfirst : FirstRun free (need n) (v ++ some c :: l) w := by
            refine ⟨v ++ [some c], l, by simp, hw, hlen.trans hk, fun v' w' hv' hl' hw' => ?_⟩
            refine hno v' w' (List.prefix_of_prefix_length_le hv' ⟨some c :: l, rfl⟩ ?_) hw'
            simp only [List.length_append, List.length_singleton] at hl'
            omega
          have hs : scanFrom free n st (some c :: l) =
              .error (some (if st.num = 0 then c else st.base)) := by
            rw [scanFrom, List.foldlM_cons]
            simp only [step, hf, ↓reduceIte, hn]
            rfl
          rw [hs]
          simp only [outcome, Option.some.injEq]
          constructor
          · rintro rfl
            exact ⟨w, hfirst, hhead⟩
          · rintro ⟨w', hw', hb⟩
            rw [hfirst.unique hw'] at hhead
            rw [hhead] at hb
            cases hb
            rfl
        · refine hcont _ (hc.visit hf) ?_ (by simp [step, hf, hn])
          unfold need
          show st.num + 1 < _
          omega
      · have hf' : free c = false := by simpa using hf
        exact hcont ⟨st.base, 0⟩ (Counts.blocked _ fun d hd => by cases hd; exact hf') (need_pos n)
          (by simp [step, hf'])

/-- **The scan answers the start of the first run.** -/
theorem outcome_scan_iff {free : α → Bool} {n : Nat} {l : List (Option α)} {b : α} :
    outcome (scan free n l) = some b ↔ ∃ w, FirstRun free (need n) l w ∧ w.head? = some b := by
  refine outcome_scanFrom_iff (v := []) (Counts.init free) (need_pos n) ?_
  intro v' w' hv' hw'
  have : w' = [] := by
    have h := (Counts.init free).le w' (List.prefix_nil.mp hv' ▸ hw')
    exact List.length_eq_zero_iff.mp (Nat.le_zero.mp h)
  rw [this]
  exact Nat.ne_of_lt (need_pos n)

theorem outcome_scan_eq_none {free : α → Bool} {n : Nat} {l : List (Option α)} :
    outcome (scan free n l) = none ↔ ∀ w, ¬ FirstRun free (need n) l w := by
  constructor
  · intro h w hw
    obtain ⟨b, hb⟩ := List.exists_mem_of_length_pos (hw.length ▸ need_pos n)
    obtain ⟨c, t, rfl⟩ := List.exists_cons_of_ne_nil (List.ne_nil_of_mem hb)
    rw [outcome_scan_iff.mpr ⟨_, hw, rfl⟩] at h
    cases h
  · intro h
    cases ho : outcome (scan free n l) with
    | none => rfl
    | some b =>
      obtain ⟨w, hw, -⟩ := outcome_scan_iff.mp ho
      exact absurd hw (h w)

/-! ## Traces in increasing order -/

section Increasing

variable {free : Nat → Bool} {k : Nat} {l : List (Option Nat)} {w : List Nat}

/-- A position of the trace that lies between two positions of the run is in the run. -/
theorem FirstRun.between (hs : l.reduceOption.Pairwise (· < ·)) (h : FirstRun free k l w)
    {a b c : Nat} (ha : a ∈ w) (hb : b ∈ w) (hac : a ≤ c) (hcb : c ≤ b) (hc : c ∈ l.reduceOption) :
    c ∈ w := by
  obtain ⟨p, q, hl⟩ := h.positions
  rw [hl] at hs hc
  obtain ⟨hpw, -, hq⟩ := List.pairwise_append.mp hs
  have hp := (List.pairwise_append.mp hpw).2.2
  rcases List.mem_append.mp hc with hc | hc
  · rcases List.mem_append.mp hc with hc | hc
    · exact absurd (hp c hc a ha) (by omega)
    · exact hc
  · exact absurd (hq b (by simp [hb]) c hc) (by omega)

theorem FirstRun.pairwise (hs : l.reduceOption.Pairwise (· < ·)) (h : FirstRun free k l w) :
    w.Pairwise (· < ·) := by
  obtain ⟨p, q, hl⟩ := h.positions
  rw [hl] at hs
  exact (List.pairwise_append.mp (List.pairwise_append.mp hs).1).2.1

/-- The first position of the run is its least. -/
theorem FirstRun.head_le (hs : l.reduceOption.Pairwise (· < ·)) (h : FirstRun free k l w) {b c : Nat}
    (hb : w.head? = some b) (hc : c ∈ w) : b ≤ c := by
  have hw := h.pairwise hs
  cases w with
  | nil => cases hc
  | cons x t =>
    cases hb
    rcases List.mem_cons.mp hc with rfl | hc
    · exact Nat.le_refl _
    · exact Nat.le_of_lt ((List.pairwise_cons.mp hw).1 c hc)

/-- No run of the trace starts before the first one. -/
theorem FirstRun.head_le_start (hs : l.reduceOption.Pairwise (· < ·)) (h : FirstRun free k l w)
    {w' : List Nat} (hw' : w'.map some <:+: l) (hfree : ∀ b ∈ w', free b = true) (hk : w'.length = k)
    {b b' : Nat} (hb : w.head? = some b) (hb' : w'.head? = some b') : b ≤ b' := by
  obtain ⟨v, q, rfl, ⟨⟨v0, rfl⟩, -⟩, hlen, hmin⟩ := h
  obtain ⟨p, q', hl⟩ := hw'
  have hlong : ¬ (p ++ w'.map some).length < (v0 ++ w.map some).length := fun hlt =>
    hmin _ w' ⟨q', hl⟩ hlt ⟨⟨p, rfl⟩, hfree⟩ hk
  simp only [List.length_append, List.length_map] at hlong
  obtain ⟨t, rfl⟩ : ∃ t, w = b :: t := List.head?_eq_some_iff.mp hb
  obtain ⟨t', rfl⟩ : ∃ t', w' = b' :: t' := List.head?_eq_some_iff.mp hb'
  -- the other run starts at the end of `v0` or later
  obtain ⟨r, rfl⟩ : v0 <+: p := by
    have hv : v0 <+: v0 ++ (b :: t).map some ++ q := ⟨_, (List.append_assoc ..).symm⟩
    have hp : p <+: v0 ++ (b :: t).map some ++ q := ⟨_, (List.append_assoc ..).symm.trans hl⟩
    exact List.prefix_of_prefix_length_le hv hp (by omega)
  rw [← hl] at hs
  simp only [List.append_assoc, List.append_cancel_left_eq, List.map_cons, List.cons_append] at hl
  cases r with
  | nil =>
    simp only [List.nil_append, List.cons.injEq, Option.some.injEq] at hl
    exact Nat.le_of_eq hl.1.symm
  | cons x r =>
    simp only [List.cons_append, List.cons.injEq] at hl
    obtain ⟨rfl, -⟩ := hl
    simp only [List.reduceOption_append, List.map_cons, List.reduceOption_cons_of_some] at hs
    have hlt := (List.pairwise_append.mp (List.pairwise_append.mp hs).1).2.2 b (by simp) b' (by simp)
    exact Nat.le_of_lt hlt

/-- `k` distinct numbers from `b` on reach up to `b + k - 1`. -/
theorem exists_ge_of_length {b : Nat} (hn : w.Nodup) (hk : w.length = k) (hpos : 0 < k)
    (hw : ∀ c ∈ w, b ≤ c) : ∃ c ∈ w, b + k ≤ c + 1 := by
  by_contra hno
  have hsub : w.toFinset ⊆ Finset.Ico b (b + k - 1) := fun x hx => by
    have hx' := List.mem_toFinset.mp hx
    have h1 := hw x hx'
    have h2 : ¬ b + k ≤ x + 1 := fun h => hno ⟨x, hx', h⟩
    simp only [Finset.mem_Ico]
    omega
  have hcard := Finset.card_le_card hsub
  rw [Nat.card_Ico, List.toFinset_card_of_nodup hn, hk] at hcard
  omega

/-- `k` numbers that include all of `[b, b + k)` include nothing else. -/
theorem lt_of_window {b : Nat} (hk : w.length = k) (hw : ∀ c, b ≤ c → c < b + k → c ∈ w) {c : Nat}
    (hc : c ∈ w) : c < b + k := by
  by_contra hge
  have hsub : insert c (Finset.Ico b (b + k)) ⊆ w.toFinset := by
    intro x hx
    rw [List.mem_toFinset]
    rcases Finset.mem_insert.mp hx with rfl | hx
    · exact hc
    · exact hw x (Finset.mem_Ico.mp hx).1 (Finset.mem_Ico.mp hx).2
  have hcard := Finset.card_le_card hsub
  rw [Finset.card_insert_of_notMem (by simp; omega), Nat.card_Ico] at hcard
  have := List.toFinset_card_le w
  omega

end Increasing

/-! ## Traces in groups -/

/-- A trace that visits groups of positions and resets the counter after each. -/
def grouped (gs : List (List α)) : List (Option α) := gs.flatMap fun g => g.map some ++ [none]

/-- What does not hold a separator lies before or behind it. -/
theorem infix_separator {β : Type} {l xs ys : List β} {x : β} (hx : x ∉ l) (hne : l ≠ []) :
    l <:+: xs ++ x :: ys ↔ l <:+: xs ∨ l <:+: ys := by
  have hstart : ∀ l', l' ≠ [] → l' <+: x :: ys → x ∈ l' := by
    intro l' hne' hpre
    obtain ⟨y, t, rfl⟩ := List.exists_cons_of_ne_nil hne'
    rw [(List.cons_prefix_cons.mp hpre).1]
    exact List.mem_cons_self
  rw [List.infix_append_iff_ne_nil, List.infix_cons_iff]
  constructor
  · rintro (h | (h | h) | ⟨l₁, l₂, -, hne₂, rfl, -, h⟩)
    · exact .inl h
    · exact absurd (hstart l hne h) hx
    · exact .inr h
    · exact absurd (List.mem_append_right l₁ (hstart l₂ hne₂ h)) hx
  · rintro (h | h)
    · exact .inl h
    · exact .inr (.inl (.inr h))

/-- **A run of a grouped trace lies in one of its groups.** -/
theorem infix_grouped {gs : List (List α)} {w : List α} (hne : w ≠ []) :
    w.map some <:+: grouped gs ↔ ∃ g ∈ gs, w <:+: g := by
  have hnone : none ∉ w.map some := by simp
  have hmap : ∀ g : List α, w.map some <:+: g.map some ↔ w <:+: g := by
    intro g
    refine ⟨fun h => ?_, fun h => h.map some⟩
    simpa [List.filterMap_map] using h.filterMap id
  induction gs with
  | nil => simp [grouped, hne]
  | cons g gs ih =>
    have hcons : grouped (g :: gs) = g.map some ++ none :: grouped gs := by simp [grouped]
    rw [hcons, infix_separator hnone (by simpa using hne), hmap, List.exists_mem_cons_iff]
    exact or_congr_right ih

/-- A piece of a range is a range. -/
theorem infix_range' {w : List Nat} {a n : Nat} :
    w <:+: List.range' a n ↔ ∃ b, a ≤ b ∧ b + w.length ≤ a + n ∧ w = List.range' b w.length := by
  constructor
  · rintro ⟨p, q, h⟩
    obtain ⟨k, hk, hpw, -⟩ := List.range'_eq_append_iff.mp h.symm
    obtain ⟨j, hj, -, hw⟩ := List.range'_eq_append_iff.mp hpw.symm
    have hlen : w.length = k - j := by rw [hw, List.length_range']
    exact ⟨a + j * 1, by omega, by omega, by rw [hlen]; exact hw⟩
  · rintro ⟨b, h1, h2, hw⟩
    rw [hw]
    refine ⟨List.range' a (b - a), List.range' (b + w.length) (a + n - (b + w.length)), ?_⟩
    have hleft := List.range'_append_1 (s := a) (m := b - a) (n := w.length)
    have hall := List.range'_append_1 (s := a) (m := b - a + w.length)
      (n := a + n - (b + w.length))
    rw [show a + (b - a) = b by omega] at hleft
    rw [show a + (b - a + w.length) = b + w.length by omega] at hall
    rw [hleft, hall]
    congr 1
    omega

/-! ## Tiling a range -/

/-- Consecutive blocks of `k` numbers make up one range. -/
theorem flatMap_range' (a k n : Nat) :
    ((List.range' 0 n).flatMap fun j => List.range' (a + k * j) k) = List.range' a (k * n) := by
  induction n with
  | zero => simp
  | succ n ih =>
    rw [List.range'_1_concat, List.flatMap_append, ih, Nat.zero_add, List.flatMap_singleton,
      Nat.mul_succ, ← List.range'_append_1]

end Condor.Lib.Scan
