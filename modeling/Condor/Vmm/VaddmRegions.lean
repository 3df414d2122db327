import Condor.Vmm.VaddmRuns

/-!
# Regions of the virtual address manager

Both region functions run from the page of `base` to the page at which a region of
the same size would end if it started at 0: the end does not add `base`. A region
is therefore set and cleared exactly if it starts in page 0 and ends in that page
(`FromFirstPage`); any other one loses its last page at least, and one that starts
above its own size is not visited at all.
-/

namespace Condor.Vmm

open Lib

def vaddm_clear_region (m : Vaddm) (base size : Nat) : Vaddm :=
  if size = 0 then m
  else
    let m := loop (base >>> 12) (((size + 0xFFF) % 2 ^ 32) >>> 12) m fun bit m => vaddm_clear_bit m bit
    set_page_word m 0 (page_bitmap m 0 ||| 1#32)

/-- Page `c` has a byte in the region. -/
def Intersects (base size c : Nat) : Prop := base < 4096 * (c + 1) ∧ 4096 * c < base + size

/-- The loops of the region functions visit page `c`. -/
def Visits (base size c : Nat) : Prop := base / 4096 ≤ c ∧ c < (size + 0xFFF) % 2 ^ 32 / 4096

/-- Page 0 and the pages of the region are allocated afterwards, and every other page as before. -/
def SetsRegion (m : Vaddm) (base size : Nat) : Prop :=
  ∀ c < 2 ^ 20, Allocated (vaddm_set_region m base size) c ↔
    c = 0 ∨ Allocated m c ∨ Intersects base size c

/-- Page 0 is allocated afterwards, the other pages of the region are free, and every other page is as
before. -/
def ClearsRegion (m : Vaddm) (base size : Nat) : Prop :=
  ∀ c < 2 ^ 20, Allocated (vaddm_clear_region m base size) c ↔
    c = 0 ∨ Allocated m c ∧ ¬ Intersects base size c

/-- The region starts in page 0 and ends in the page where one of its size from 0 on does. -/
def FromFirstPage (base size : Nat) : Prop :=
  base < 4096 ∧ size ≤ 0xFFFFF000 ∧ base + (size - 1) % 4096 < 4096

instance (base size : Nat) : Decidable (FromFirstPage base size) := inferInstanceAs (Decidable (_ ∧ _))

variable {m : Vaddm} {base size c : Nat}

/-! ## What the functions do -/

/-- `page_bitmap[0] |= 0x1`. -/
theorem allocated_set_first :
    Allocated (set_page_word m 0 (page_bitmap m 0 ||| 1#32)) c ↔ c = 0 ∨ Allocated m c := by
  show Bitmap.test (Bitmap.set m 0) c = true ↔ c = 0 ∨ Bitmap.test m c = true
  rw [Bitmap.test_set (by decide), Bool.or_eq_true, decide_eq_true_iff, or_comm]

theorem allocated_set_region (hsize : 1 ≤ size) (hc : c ≤ 32768 * 32) :
    Allocated (vaddm_set_region m base size) c ↔ c = 0 ∨ Allocated m c ∨ Visits base size c := by
  unfold vaddm_set_region
  rw [if_neg (by omega)]
  simp only [Nat.shiftRight_eq_div_pow]
  rw [allocated_set_first, allocated_set_loop _ _ hc]
  rfl

theorem allocated_clear_region (hsize : 1 ≤ size) (hc : c ≤ 32768 * 32) :
    Allocated (vaddm_clear_region m base size) c ↔ c = 0 ∨ Allocated m c ∧ ¬ Visits base size c := by
  unfold vaddm_clear_region
  rw [if_neg (by omega)]
  simp only [Nat.shiftRight_eq_div_pow]
  rw [allocated_set_first, allocated_clear_loop _ _ hc]
  rfl

/-! ## When they do what is asked -/

theorem Visits.intersects (hsize : 1 ≤ size) (h : Visits base size c) : Intersects base size c := by
  unfold Visits at h
  unfold Intersects
  omega

/-- Every page of the region but page 0 is visited. -/
def VisitsAll (base size : Nat) : Prop := ∀ c < 2 ^ 20, c ≠ 0 → Intersects base size c →
    Visits base size c

theorem visitsAll_iff (hsize : 1 ≤ size) (hend : base + size ≤ 2 ^ 32) :
    VisitsAll base size ↔ FromFirstPage base size := by
  unfold VisitsAll Intersects Visits FromFirstPage
  constructor
  · intro h
    -- the last page of the region
    have hlast := h ((base + size - 1) / 4096)
    by_cases hz : (base + size - 1) / 4096 = 0
    · omega
    · have := hlast (by omega) hz (by omega)
      omega
  · rintro ⟨hbase, hmax, hfit⟩ c - - ⟨h1, h2⟩
    omega

theorem setsRegion_iff (hsize : 1 ≤ size) : SetsRegion m base size ↔
    ∀ c < 2 ^ 20, c ≠ 0 → Intersects base size c → ¬ Visits base size c → Allocated m c := by
  refine forall₂_congr fun c hc => ?_
  rw [allocated_set_region hsize (by omega)]
  have hin : Visits base size c → Intersects base size c := Visits.intersects hsize
  tauto

theorem clearsRegion_iff (hsize : 1 ≤ size) : ClearsRegion m base size ↔
    ∀ c < 2 ^ 20, c ≠ 0 → Intersects base size c → ¬ Visits base size c → ¬ Allocated m c := by
  refine forall₂_congr fun c hc => ?_
  rw [allocated_clear_region hsize (by omega)]
  have hin : Visits base size c → Intersects base size c := Visits.intersects hsize
  tauto

/-- In a state without allocated pages. -/
theorem not_allocated_zero (c : Nat) : ¬ Allocated (fun _ => 0#32) c := by
  unfold Allocated Bitmap.test
  rw [BitVec.getLsbD_zero]
  exact Bool.false_ne_true

/-- **Regions.** In any state both functions treat a region as asked exactly if it is `FromFirstPage`,
and each of them alone does in all states exactly then. -/
theorem regions_iff (hsize : 1 ≤ size) (hend : base + size ≤ 2 ^ 32) :
    (SetsRegion m base size ∧ ClearsRegion m base size ↔ FromFirstPage base size) ∧
    ((∀ m, SetsRegion m base size) ↔ FromFirstPage base size) ∧
    ((∀ m, ClearsRegion m base size) ↔ FromFirstPage base size) := by
  rw [← visitsAll_iff hsize hend]
  simp only [setsRegion_iff hsize, clearsRegion_iff hsize]
  refine ⟨⟨fun h c hc h0 hin => ?_, fun h => ?_⟩, ⟨fun h => ?_, fun h m c hc h0 hin hmiss => ?_⟩,
    ⟨fun h => ?_, fun h m c hc h0 hin hmiss => ?_⟩⟩
  · by_contra hmiss
    exact h.2 c hc h0 hin hmiss (h.1 c hc h0 hin hmiss)
  · exact ⟨fun c hc h0 hin hmiss => absurd (h c hc h0 hin) hmiss,
      fun c hc h0 hin hmiss => absurd (h c hc h0 hin) hmiss⟩
  · intro c hc h0 hin
    by_contra hmiss
    exact not_allocated_zero c (h (fun _ => 0#32) c hc h0 hin hmiss)
  · exact absurd (h c hc h0 hin) hmiss
  · intro c hc h0 hin
    by_contra hmiss
    exact h (fun _ => 0xFFFFFFFF#32) c hc h0 hin hmiss (allocated_of_word_full rfl)
  · exact absurd (h c hc h0 hin) hmiss

theorem regions_iff_first_megabyte :
    (SetsRegion (fun _ => 0#32) 0 0x100000 ∧ ClearsRegion (fun _ => 0#32) 0 0x100000) ∧
      Intersects 0 0x100000 255 :=
  ⟨(regions_iff (by decide) (by decide)).1.mpr (by decide), by decide, by decide⟩

/-- The kernel half: none of its pages is visited. -/
theorem kernel_half_not_set :
    ¬ SetsRegion (fun _ => 0#32) 0xC0000000 0x3FFFFFFF ∧
      ¬ Allocated (vaddm_set_region (fun _ => 0#32) 0xC0000000 0x3FFFFFFF) 0xC0000 ∧
      ¬ ClearsRegion (fun _ => 0xFFFFFFFF#32) 0xC0000000 0x3FFFFFFF := by
  have hin : Intersects 0xC0000000 0x3FFFFFFF 0xC0000 := ⟨by decide, by decide⟩
  have hmiss : ¬ Visits 0xC0000000 0x3FFFFFFF 0xC0000 := fun h => absurd h.2 (by decide)
  refine ⟨fun h => ?_, fun h => ?_, fun h => ?_⟩
  · exact not_allocated_zero _ ((setsRegion_iff (by decide)).mp h _ (by decide) (by decide) hin hmiss)
  · rcases (allocated_set_region (by decide) (by decide)).mp h with h | h | h
    · cases h
    · exact not_allocated_zero _ h
    · exact hmiss h
  · exact (clearsRegion_iff (by decide)).mp h _ (by decide) (by decide) hin hmiss
      (allocated_of_word_full rfl)

end Condor.Vmm
