import Mathlib.Algebra.Order.BigOperators.Group.List
import Mathlib.Algebra.Order.Group.Nat
import Condor.Vmm.Vaddm

/-!
# What `vaddm_get_first_clear_bits` finds

The pages of one pass come in increasing order, without those of full words
(`pairwise_pass`, `mem_pass`), and the next pass starts again below. A page that
is searched is therefore followed by the next page, as long as that one is below
1024 and its word is not full (`follows_succ`). A run that the search counts from
page `b` on holds the pages from `b` up to the first full word or to page 1024
(`CountedRun.getElem?_eq`), and pages it wrapped to after that.
-/

namespace Condor.Vmm

open Lib

/-- The pages of word `pg`, if the search looks at them. -/
def wordPages (m : Vaddm) (pg : Nat) : List Nat :=
  if page_bitmap m pg ≠ 0xFFFFFFFF#32 then List.range' (32 * pg) 32 else []

/-- The pages the search visits for bit `s` of the first superpage word. -/
def passPages (m : Vaddm) (s : Nat) : List Nat :=
  if superpage_bitmap m 0 &&& 1#32 <<< s = 0#32 then (List.range' s (32 - s)).flatMap (wordPages m)
  else []

/-- The pages the search visits, in order. -/
def searchPages (m : Vaddm) : List Nat :=
  if superpage_bitmap m 0 ≠ 0xFFFFFFFF#32 then (List.range' 0 32).flatMap (passPages m) else []

/-- Page `c` is free, as the search decides it. -/
def isFree (m : Vaddm) (c : Nat) : Bool := decide (FreePage m c)

/-- `w` is the first run of `n` free pages that the search counts in a row. -/
def CountedRun (m : Vaddm) (n : Nat) (w : List Nat) : Prop :=
  Scan.FirstRun (isFree m) n ((searchPages m).map some) w

variable {m : Vaddm} {n : Nat}

/-! ## The loops fold over the pages -/

/-- One visit of the scan. -/
def visit (m : Vaddm) (n : Nat) (st : Scan.Run Nat) (c : Nat) : Except (Option Nat) (Scan.Run Nat) :=
  Scan.step (isFree m) n st (some c)

theorem visit_pages_eq (pg : Nat) (st : Scan.Run Nat) :
    visit_pages m n pg st = (List.range' (32 * pg) 32).foldlM (visit m n) st := by
  have hrange : List.range' (32 * pg) 32 = (List.range' 0 32).map fun j => 32 * pg + j := by
    rw [List.map_add_range']
    rfl
  rw [hrange, List.foldlM_map, ← forUp_eq_foldlM]
  refine forUp_congr fun bit _ hbit st => ?_
  have hbase : (pg <<< 5) + bit = 32 * pg + bit := by
    rw [Nat.shiftLeft_eq, Nat.mul_comm]
  rw [page_index hbit, hbase]
  by_cases hf : FreePage m (32 * pg + bit)
  · simp [vaddm_get_bit_eq_zero, visit, Scan.step, isFree, hf]
  · simp [vaddm_get_bit_eq_zero, visit, Scan.step, isFree, hf]

theorem visit_page_words_eq (lo : Nat) (st : Scan.Run Nat) :
    visit_page_words m n lo st =
      ((List.range' lo (32 - lo)).flatMap (wordPages m)).foldlM (visit m n) st := by
  rw [← forUp_flatMap]
  refine forUp_congr fun pg _ _ st => ?_
  unfold wordPages
  split
  · exact visit_pages_eq pg st
  · rfl

theorem visit_superpage_eq {s : Nat} (hs : s < 32) (st : Scan.Run Nat) :
    visit_superpage m n 0 s st = (passPages m s).foldlM (visit m n) st := by
  have hlo : (0 <<< 5) ||| s = s := by
    rw [word_index hs]
    omega
  unfold visit_superpage passPages
  rw [hlo]
  split
  · exact visit_page_words_eq s st
  · rfl

/-- From the second superpage word on there is no page word left to visit. -/
theorem visit_superpage_pure {sb s : Nat} (hsb : 0 < sb) (hs : s < 32) (st : Scan.Run Nat) :
    visit_superpage m n sb s st = .ok st := by
  unfold visit_superpage
  rw [word_index hs]
  split
  · exact forUp_of_le (by omega) ..
  · rfl

/-- **The search answers from the scan of its pages.** -/
theorem search_eq (hn : n ≠ 0) :
    vaddm_get_first_clear_bits m n =
      Scan.outcome (Scan.scan (isFree m) n ((searchPages m).map some)) := by
  unfold vaddm_get_first_clear_bits
  rw [if_neg hn, forUp_of_lt (by decide), Scan.scan, Scan.scanFrom, List.foldlM_map]
  congr 1
  have hrest : ∀ st : Scan.Run Nat, (forUp 1 32 st fun sb st =>
      if superpage_bitmap m sb ≠ 0xFFFFFFFF#32 then forUp 0 32 st (visit_superpage m n sb)
      else .ok st) = (pure st : Except (Option Nat) _) := by
    refine forUp_pure fun sb h1 _ st => ?_
    split
    · exact forUp_pure (fun s _ hs st => visit_superpage_pure h1 hs st) st
    · rfl
  simp only [hrest, bind_pure]
  unfold searchPages
  split
  · rw [← forUp_foldlM]
    exact forUp_congr fun s _ hs st => visit_superpage_eq hs st
  · rfl

/-- The search answers the start of the run it counts. -/
theorem search_eq_some (hn : 1 ≤ n) {b : Nat} :
    vaddm_get_first_clear_bits m n = some b ↔ ∃ w, CountedRun m n w ∧ w.head? = some b := by
  rw [search_eq (by omega), Scan.outcome_scan_iff, show Scan.need n = n by unfold Scan.need; omega]
  rfl

theorem search_eq_none (hn : 1 ≤ n) :
    vaddm_get_first_clear_bits m n = none ↔ ∀ w, ¬ CountedRun m n w := by
  rw [search_eq (by omega), Scan.outcome_scan_eq_none, show Scan.need n = n by unfold Scan.need; omega]
  rfl

/-! ## The pages of a pass -/

theorem pass_sublist (s : Nat) : (passPages m s).Sublist (List.range' (32 * s) (32 * (32 - s))) := by
  unfold passPages
  split
  · have htile := Scan.flatMap_range' (32 * s) 32 (32 - s)
    rw [← htile]
    have hwords : List.range' s (32 - s) = (List.range' 0 (32 - s)).map fun j => s + j := by
      rw [List.map_add_range']
      rfl
    rw [hwords, List.flatMap_map]
    refine List.Sublist.flatMap_right _ fun j _ => ?_
    unfold wordPages
    split
    · rw [Nat.mul_add]
    · exact List.nil_sublist _
  · exact List.nil_sublist _

theorem pairwise_pass (s : Nat) : (passPages m s).Pairwise (· < ·) :=
  List.Pairwise.sublist (pass_sublist s) List.pairwise_lt_range'

theorem mem_pass {s c : Nat} (hs : s < 32) :
    c ∈ passPages m s ↔ superpage_bitmap m 0 &&& 1#32 <<< s = 0#32 ∧
      page_bitmap m (c / 32) ≠ 0xFFFFFFFF#32 ∧ 32 * s ≤ c ∧ c < 1024 := by
  have hword : ∀ pg, c ∈ wordPages m pg ↔ page_bitmap m pg ≠ 0xFFFFFFFF#32 ∧ pg = c / 32 := by
    intro pg
    unfold wordPages
    split
    case isTrue h =>
      rw [List.mem_range'_1]
      exact ⟨fun hc => ⟨h, by omega⟩, fun hc => by omega⟩
    case isFalse h => simp [h]
  unfold passPages
  split
  case isTrue h =>
    simp only [List.mem_flatMap, List.mem_range'_1, hword, h, true_and]
    constructor
    · rintro ⟨pg, hpg, hfull, rfl⟩
      exact ⟨hfull, by omega, by omega⟩
    · rintro ⟨hfull, h1, h2⟩
      exact ⟨c / 32, by omega, hfull, rfl⟩
  case isFalse h => simp [h]

theorem mem_searchPages {c : Nat} (h : c ∈ searchPages m) :
    page_bitmap m (c / 32) ≠ 0xFFFFFFFF#32 ∧ c < 1024 := by
  unfold searchPages at h
  split at h
  · obtain ⟨s, hs, hc⟩ := List.mem_flatMap.mp h
    obtain ⟨-, hfull, -, hlt⟩ := (mem_pass (by simpa using hs)).mp hc
    exact ⟨hfull, hlt⟩
  · cases h

theorem length_searchPages : (searchPages m).length ≤ 32 * 1024 := by
  unfold searchPages
  split
  · rw [List.length_flatMap]
    have hpass : ∀ k ∈ (List.range' 0 32).map (fun s => (passPages m s).length), k ≤ 1024 := by
      intro k hk
      obtain ⟨s, -, rfl⟩ := List.mem_map.mp hk
      have := (pass_sublist (m := m) s).length_le
      rw [List.length_range'] at this
      omega
    have := List.sum_le_card_nsmul _ 1024 hpass
    simpa using this
  · simp

/-! ## Successive pages -/

/-- Whenever `c` stands in `l`, `d` stands right after it. -/
def Follows (l : List Nat) (c d : Nat) : Prop := ∀ p q, l = p ++ c :: q → ∃ q', q = d :: q'

theorem Follows.append {l l' : List Nat} {c d : Nat} (h : Follows l c d) (h' : Follows l' c d) :
    Follows (l ++ l') c d := by
  intro p q hpq
  rcases List.append_eq_append_iff.mp hpq with ⟨a, rfl, ha⟩ | ⟨a, rfl, ha⟩
  · exact h' a q ha
  · cases a with
    | nil =>
      obtain ⟨q', hq'⟩ := h' [] q (by simpa using ha.symm)
      exact ⟨q', hq'⟩
    | cons x a =>
      obtain ⟨rfl, rfl⟩ := List.cons.inj ha
      obtain ⟨q', rfl⟩ := h p a rfl
      exact ⟨q' ++ l', rfl⟩

theorem Follows.flatMap {l : List Nat} {f : Nat → List Nat} {c d : Nat}
    (h : ∀ s ∈ l, Follows (f s) c d) : Follows (l.flatMap f) c d := by
  induction l with
  | nil =>
    intro p q hpq
    simp at hpq
  | cons s l ih =>
    rw [List.flatMap_cons]
    exact (h s (by simp)).append (ih fun t ht => h t (by simp [ht]))

/-- In an increasing list that holds `c + 1` whenever it holds `c`, it comes right after. -/
theorem follows_of_pairwise {l : List Nat} {c : Nat} (hl : l.Pairwise (· < ·))
    (h : c ∈ l → c + 1 ∈ l) : Follows l c (c + 1) := by
  rintro p q rfl
  obtain ⟨-, hq, hp⟩ := List.pairwise_append.mp hl
  obtain ⟨hcq, hq⟩ := List.pairwise_cons.mp hq
  have hmem : c + 1 ∈ q := by
    rcases List.mem_append.mp (h (by simp)) with hc | hc
    · have := hp (c + 1) hc c (by simp)
      omega
    · exact (List.mem_cons.mp hc).resolve_left (by omega)
  cases q with
  | nil => cases hmem
  | cons d q =>
    have hd := hcq d (by simp)
    rcases List.mem_cons.mp hmem with rfl | hin
    · exact ⟨q, rfl⟩
    · have := (List.pairwise_cons.mp hq).1 _ hin
      omega

/-- A page that is searched is followed by the next one, unless a full word or page 1024 comes. -/
theorem follows_succ {c : Nat} (hc : c + 1 < 1024)
    (hfull : page_bitmap m ((c + 1) / 32) ≠ 0xFFFFFFFF#32) : Follows (searchPages m) c (c + 1) := by
  unfold searchPages
  split
  · refine Follows.flatMap fun s hs => follows_of_pairwise (pairwise_pass s) fun hmem => ?_
    have hs : s < 32 := by simpa using hs
    obtain ⟨hsuper, -, hlo, -⟩ := (mem_pass hs).mp hmem
    exact (mem_pass hs).mpr ⟨hsuper, hfull, by omega, hc⟩
  · intro p q hpq
    simp at hpq

/-! ## The run that is counted -/

variable {w : List Nat} {b : Nat}

theorem CountedRun.positions (hw : CountedRun m n w) : ∃ p q, searchPages m = p ++ w ++ q := by
  obtain ⟨p, q, hl⟩ := Scan.FirstRun.positions hw
  refine ⟨p, q, ?_⟩
  rw [← hl, List.reduceOption, List.filterMap_map]
  simp

theorem CountedRun.freePage (hw : CountedRun m n w) {c : Nat} (hc : c ∈ w) : FreePage m c := by
  simpa [isFree] using Scan.FirstRun.free hw hc

theorem CountedRun.lt (hw : CountedRun m n w) {c : Nat} (hc : c ∈ w) : c < 1024 := by
  obtain ⟨p, q, hl⟩ := hw.positions
  exact (mem_searchPages (m := m) (by rw [hl]; simp [hc])).2

theorem CountedRun.le (hw : CountedRun m n w) : n ≤ 32 * 1024 := by
  obtain ⟨p, q, hl⟩ := hw.positions
  have hlen := length_searchPages (m := m)
  rw [hl, List.length_append, List.length_append, Scan.FirstRun.length hw] at hlen
  omega

/-- From its first page on the run holds every page below 1024 as long as no full word comes. -/
theorem CountedRun.getElem?_eq (hw : CountedRun m n w) (hb : w.head? = some b) {j : Nat} (hj : j < n)
    (hlt : b + j < 1024)
    (hfull : ∀ c, b ≤ c → c ≤ b + j → page_bitmap m (c / 32) ≠ 0xFFFFFFFF#32) :
    w[j]? = some (b + j) := by
  induction j with
  | zero => rwa [← List.head?_eq_getElem?]
  | succ j ih =>
    have hprev := ih (by omega) (by omega) fun c h1 h2 => hfull c h1 (by omega)
    obtain ⟨hlen, hval⟩ := List.getElem?_eq_some_iff.mp hprev
    have hsplit : w = w.take j ++ (b + j) :: w.drop (j + 1) := by
      rw [← hval, List.getElem_cons_drop, List.take_append_drop]
    obtain ⟨p, q, hl⟩ := hw.positions
    rw [hsplit] at hl
    obtain ⟨q', hq'⟩ := follows_succ hlt (hfull (b + j + 1) (by omega) (by omega)) (p ++ w.take j)
      (w.drop (j + 1) ++ q) (by rw [hl]; simp)
    have hlen' : j + 1 < w.length := by
      rw [Scan.FirstRun.length hw]
      exact hj
    rw [List.drop_eq_getElem_cons hlen'] at hq'
    rw [List.getElem?_eq_getElem hlen']
    exact congrArg some (List.cons.inj hq').1

end Condor.Vmm
