import Condor.Pmm.Ownership
import Condor.Pmm.StackIndex

/-!
# The exhausted allocator

With no free block below 16 MiB every request goes to the frame stack. A pop
answers the dword under the index, so the calls fail as long as those dwords are
`0xFFFFFFFF`, one less with every call, and from index -1 the next call answers
the page the stack is stored in. A frame freed in between is written above the
index; taking it out again ends in failure if the dword under the index still is
`0xFFFFFFFF` (`recovered_iff`). So a number of calls can fail and recover exactly
if the index is large enough to step down so often (`RoomToFail`): after a run
without a bad pop the index is 0 and that number is zero (`Sound.roomToFail_iff`).
-/

namespace Condor.Pmm

open Lib

theorem PmmRun.fromBoot {C : State AddrSpace → History → Op → Prop} {s : State AddrSpace} {h : History}
    {owned : Nat → Prop} (hrun : PmmRun C s h owned) : FromBoot AddrSpace.paging s := by
  induction hrun with
  | init _ _ hi _ hok => exact .init hi hok
  | step _ _ hok ih => exact .step ih hok

/-! ## Exhausted states -/

/-- No block below 16 MiB is free, and the frame stack has its first page. -/
structure Exhausted (s : State AddrSpace) (p : Nat) : Prop where
  full : ∀ b < 4096, Allocated s.low_bitmaps b
  stack32 : s.space.frame? (STACK32 / 4096) = some p

/-- The frame stack has both its pages, so that a push stores an entry. -/
structure Established (s : State AddrSpace) (p q : Nat) : Prop extends Exhausted s p where
  stack32_ne : p ≠ 0
  stack64 : s.space.frame? (STACK64 / 4096) = some q
  stack64_ne : q ≠ 0

/-- The calls all fail, one after the other. -/
inductive Fails : State AddrSpace → List PallocFlags → State AddrSpace → Prop
  | nil (s) : Fails s [] s
  | cons {s t s' flags calls} (h : kpmalloc AddrSpace.paging s flags = .ok (FAIL, t))
      (hrest : Fails t calls s') : Fails s (flags :: calls) s'

/-- A frame that can be freed to the stack. -/
def HighFrame (f : Nat) : Prop := f % 4096 = 0 ∧ 0x01000000 ≤ f ∧ f < 2 ^ 32

/-- The freed frame is handed out next, and the call after that fails. -/
def Recovered (s : State AddrSpace) (f : Nat) (flags flags' : PallocFlags) : Prop :=
  ∃ t u v, pfree AddrSpace.paging s f 1 = .ok t ∧
    kpmalloc AddrSpace.paging t flags = .ok (f, u) ∧ kpmalloc AddrSpace.paging u flags' = .ok (FAIL, v)

/-- The calls fail and leave the allocator able to recover. -/
def FailsAndRecovers (s : State AddrSpace) (calls : List PallocFlags) : Prop :=
  ∃ s', Fails s calls s' ∧ ∀ f flags flags', HighFrame f → Recovered s' f flags flags'

/-- Below the index there is room for `k` pops and one more, all of which fail. -/
def RoomToFail (s : State AddrSpace) (p k : Nat) : Prop :=
  ∃ j : Nat, s.stack32_index = j + k ∧ j < 1023 ∧ ∀ m, j ≤ m → m ≤ j + k → s.space.frames p m = FAIL

section
variable {s s' : State AddrSpace} {h : History} {p q f : Nat} {flags flags' : PallocFlags}

theorem HighFrame.lt (hf : HighFrame f) : f < FAIL := by
  unfold HighFrame at hf
  unfold FAIL
  omega

theorem Exhausted.kpmalloc (hx : Exhausted s p) (flags : PallocFlags) :
    kpmalloc AddrSpace.paging s flags = stack_pop32 AddrSpace.paging s flags := by
  have hnone : paddm_get_first_clear_bits s.low_bitmaps flags = none := by
    rw [search_eq_none]
    intro w hw
    obtain ⟨b, hb⟩ := List.exists_mem_of_length_pos (hw.2.length ▸ Scan.need_pos _)
    have hfree := hw.freeBlock hb
    exact hfree.2 (hx.full b hfree.1)
  rw [Pmm.kpmalloc, hnone]

/-- A call at index `k` answers the dword under the index. -/
theorem Exhausted.kpmalloc_slot (hx : Exhausted s p) (flags : PallocFlags) {k : Nat}
    (hi : s.stack32_index = k) (hk : k < 1024) :
    Pmm.kpmalloc AddrSpace.paging s flags = .ok (s.space.frames p k, s.popped) := by
  rw [hx.kpmalloc, pop_slot flags hx.stack32 hi hk]
  rfl

/-- A call at index -1 does not fail: it answers the stack's own page, if anything. -/
theorem Exhausted.not_fail_below (hx : Exhausted s p) (hi : s.stack32_index < 0) :
    Pmm.kpmalloc AddrSpace.paging s flags ≠ .ok (FAIL, s') := by
  intro h
  rw [hx.kpmalloc] at h
  have hr := pop_below flags hx.stack32 hi h
  unfold FAIL at hr
  omega

theorem Exhausted.popped (hx : Exhausted s p) : Exhausted s.popped p :=
  ⟨hx.full, hx.stack32⟩

/-- One call fails exactly if the index is not negative and the dword under it is the failure value. -/
theorem Exhausted.fail_iff (hx : Exhausted s p) (hi : IndexBound s) :
    Pmm.kpmalloc AddrSpace.paging s flags = .ok (FAIL, s') ↔
      ∃ k : Nat, s.stack32_index = k ∧ s.space.frames p k = FAIL ∧ s' = s.popped := by
  obtain ⟨hlo, hhi⟩ := hi
  rcases Int.lt_or_le s.stack32_index 0 with hneg | hpos
  · refine iff_of_false (hx.not_fail_below hneg) ?_
    rintro ⟨k, hk, -⟩
    omega
  · obtain ⟨k, hk⟩ := Int.eq_ofNat_of_zero_le hpos
    rw [hx.kpmalloc_slot flags hk (by omega)]
    constructor
    · intro h
      obtain ⟨hr, hs'⟩ := Prod.mk.inj (Except.ok.inj h)
      exact ⟨k, hk, hr, hs'.symm⟩
    · rintro ⟨k', hk', hr, rfl⟩
      obtain rfl : k = k' := by omega
      rw [hr]

/-! ## Failing calls -/

/-- The state after `k` pops from the page. -/
def State.poppedBy (s : State AddrSpace) (k : Nat) : State AddrSpace :=
  { s with stack32_index := s.stack32_index - k }

theorem Exhausted.poppedBy (hx : Exhausted s p) (k : Nat) : Exhausted (s.poppedBy k) p :=
  ⟨hx.full, hx.stack32⟩

theorem popped_poppedBy (k : Nat) : s.popped.poppedBy k = s.poppedBy (k + 1) := by
  unfold State.poppedBy State.popped
  congr 1
  push_cast
  omega

/-- Calls fail exactly if the dwords they step over are all the failure value. -/
theorem Exhausted.fails_iff {calls : List PallocFlags} (hx : Exhausted s p) (hi : IndexBound s) :
    Fails s calls s' ↔ s' = s.poppedBy calls.length ∧ (calls.length : Int) ≤ s.stack32_index + 1 ∧
      ∀ m : Nat, s.stack32_index - calls.length < m → m ≤ s.stack32_index →
        s.space.frames p m = FAIL := by
  obtain ⟨hlo, hhi⟩ := hi
  induction calls generalizing s with
  | nil =>
    have hsame : s.poppedBy 0 = s := by
      unfold State.poppedBy
      simp
    simp only [List.length_nil, hsame]
    constructor
    · intro h
      cases h
      exact ⟨rfl, by push_cast; omega, fun m h1 h2 => by push_cast at h1; omega⟩
    · rintro ⟨rfl, -⟩
      exact .nil _
  | cons flags calls ih =>
    have hpop : s.popped.stack32_index = s.stack32_index - 1 := rfl
    have hmem : s.popped.space = s.space := rfl
    simp only [List.length_cons, ← popped_poppedBy]
    constructor
    · intro h
      cases h with
      | cons h hrest =>
        obtain ⟨k, hk, hw, rfl⟩ := (hx.fail_iff ⟨hlo, hhi⟩).mp h
        obtain ⟨hs', hle, hall⟩ := (ih hx.popped (by omega) (by omega)).mp hrest
        refine ⟨hs', by push_cast; omega, fun m h1 h2 => ?_⟩
        push_cast at h1
        rcases Nat.lt_or_ge m k with hlt | hge
        · exact hall m (by omega) (by omega)
        · obtain rfl : m = k := by omega
          exact hw
    · rintro ⟨hs', hle, hall⟩
      push_cast at hle hall
      obtain ⟨k, hk⟩ := Int.eq_ofNat_of_zero_le (show 0 ≤ s.stack32_index by omega)
      have hw := hall k (by omega) (by omega)
      refine .cons ((hx.fail_iff ⟨hlo, hhi⟩).mpr ⟨k, hk, hw, rfl⟩) ?_
      refine (ih hx.popped (by omega) (by omega)).mpr ⟨hs', by omega, fun m h1 h2 => ?_⟩
      exact hall m (by omega) (by omega)

/-! ## Recovery -/

/-- Freeing one frame pushes it. -/
theorem HighFrame.pfree (hf : HighFrame f) :
    Pmm.pfree AddrSpace.paging s f 1 = stack_push AddrSpace.paging s f := by
  unfold HighFrame at hf
  have hpoison : f ≠ POISON_NULL := by
    unfold POISON_NULL
    omega
  rw [Pmm.pfree, if_neg hpoison, if_neg (by omega), if_pos ⟨hf.2.1, rfl⟩]

theorem HighFrame.exec_pfree (hf : HighFrame f) (h : stack_push AddrSpace.paging s f = .ok s') :
    exec AddrSpace.paging s (.pfree f 1) = .ok (none, s') := by
  show (Pmm.pfree AddrSpace.paging s f 1 >>= fun s => .ok (none, s)) = _
  rw [hf.pfree, h]
  rfl

theorem HighFrame.opOk (hf : HighFrame f) (hnew : f / 4096 ∉ h.frames) : OpOk s h (.pfree f 1) :=
  fun _ _ _ => ⟨hf.2.2, hnew⟩

/-- The state after a push into word `k` of the page. -/
def State.pushed (s : State AddrSpace) (p k addr : Nat) : State AddrSpace :=
  { s with
    space := s.space.setFrame p (Function.update (s.space.frames p) k addr)
    stack32_index := s.stack32_index + 1 }

theorem Established.pushed (hx : Established s p q) (k addr : Nat) :
    Established (s.pushed p k addr) p q :=
  ⟨⟨hx.full, hx.stack32⟩, hx.stack32_ne, hx.stack64, hx.stack64_ne⟩

theorem Established.poppedBy (hx : Established s p q) (k : Nat) : Established (s.poppedBy k) p q :=
  ⟨⟨hx.full, hx.stack32⟩, hx.stack32_ne, hx.stack64, hx.stack64_ne⟩

theorem pushed_word (k addr m : Nat) :
    (s.pushed p k addr).space.frames p m = if m = k then addr else s.space.frames p m := by
  unfold State.pushed
  rw [AddrSpace.setFrame_frames_self, Function.update_apply]

/-- On a page with room the freed frame is written above the index, and the next call answers it. -/
theorem Established.refill (hx : Established s p q) (hf : HighFrame f) (flags : PallocFlags) {k : Nat}
    (hk : s.stack32_index + 1 = k) (hroom : k < 1024) :
    Pmm.pfree AddrSpace.paging s f 1 = .ok (s.pushed p k f) ∧
      Pmm.kpmalloc AddrSpace.paging (s.pushed p k f) flags = .ok (f, (s.pushed p k f).popped) := by
  refine ⟨?_, ?_⟩
  · rw [hf.pfree]
    exact push_room hx.stack32 hx.stack32_ne hx.stack64 hx.stack64_ne hk hroom hf.lt
  · rw [(hx.pushed k f).kpmalloc_slot flags hk hroom, pushed_word, if_pos rfl]

/-- With room on the page only the call after that decides. -/
theorem Established.recovered_room (hx : Established s p q) (hf : HighFrame f) {k : Nat}
    (hk : s.stack32_index + 1 = k) (hroom : k < 1024) :
    Recovered s f flags flags' ↔
      ∃ v, Pmm.kpmalloc AddrSpace.paging (s.pushed p k f).popped flags' = .ok (FAIL, v) := by
  obtain ⟨hpush, hpop⟩ := hx.refill hf flags hk hroom
  constructor
  · rintro ⟨t, u, v, ht, hu, hv⟩
    rw [hpush] at ht
    cases ht
    rw [hpop] at hu
    cases hu
    exact ⟨v, hv⟩
  · rintro ⟨v, hv⟩
    exact ⟨_, _, v, hpush, hpop, hv⟩

/-- On a full page the freed frame becomes the next page, and the second call answers it at best. -/
theorem Established.not_recovered_full (hx : Established s p q) (hf : HighFrame f)
    (hi : s.stack32_index = 1023) : ¬ Recovered s f flags flags' := by
  rintro ⟨t, u, v, ht, hu, hv⟩
  obtain ⟨m, hok, hm⟩ := push_full hx.stack32 hx.stack32_ne hx.stack64 hx.stack64_ne hi hf.lt
  rw [hf.pfree, hok] at ht
  cases ht
  have hx' : Exhausted { s with space := m, stack32_index := 0 } (f / 4096) := by
    refine ⟨hx.full, ?_⟩
    show m.frame? _ = _
    rw [hm, AddrSpace.frame?_setFrame, withStackPage_frame (by decide)]
  rw [hx'.kpmalloc_slot flags (k := 0) rfl (by decide)] at hu
  obtain ⟨-, rfl⟩ := Prod.mk.inj (Except.ok.inj hu)
  exact hx'.popped.not_fail_below (show (0 : Int) - 1 < 0 by decide) hv

/-- **Recovery**: the freed frame goes above a dword of the page that is the failure value. -/
theorem Established.recovered_iff (hx : Established s p q) (hi : IndexBound s) (hf : HighFrame f) :
    Recovered s f flags flags' ↔
      ∃ k : Nat, s.stack32_index = k ∧ k < 1023 ∧ s.space.frames p k = FAIL := by
  obtain ⟨hlo, hhi⟩ := hi
  by_cases hfull : s.stack32_index = 1023
  · refine iff_of_false (hx.not_recovered_full hf hfull) ?_
    rintro ⟨k, hk, hlt, -⟩
    omega
  obtain ⟨k, hk⟩ := Int.eq_ofNat_of_zero_le (show 0 ≤ s.stack32_index + 1 by omega)
  have hindex : (s.pushed p k f).popped.stack32_index = s.stack32_index := Int.add_sub_cancel ..
  have hbound : IndexBound (s.pushed p k f).popped := by
    unfold IndexBound
    rw [hindex]
    exact ⟨hlo, hhi⟩
  have hword : ∀ m, (s.pushed p k f).popped.space.frames p m = _ := pushed_word k f
  rw [hx.recovered_room hf hk (by omega)]
  simp only [(hx.pushed k f).popped.fail_iff hbound, hindex, hword]
  constructor
  · rintro ⟨v, j, hj, hw, -⟩
    rw [if_neg (by omega)] at hw
    exact ⟨j, hj, by omega, hw⟩
  · rintro ⟨j, hj, hlt, hw⟩
    exact ⟨_, j, hj, by rw [if_neg (by omega), hw], rfl⟩

/-- The calls fail and leave the allocator able to recover exactly if the index is high enough above
dwords that are all the failure value. -/
theorem Established.failsAndRecovers_iff {calls : List PallocFlags} (hx : Established s p q)
    (hi : IndexBound s) : FailsAndRecovers s calls ↔ RoomToFail s p calls.length := by
  have hindex : (s.poppedBy calls.length).stack32_index = s.stack32_index - calls.length := rfl
  have hmem : (s.poppedBy calls.length).space = s.space := rfl
  constructor
  · rintro ⟨s', hfails, hrec⟩
    obtain ⟨rfl, hle, hall⟩ := (hx.fails_iff hi).mp hfails
    have hi' : IndexBound (s.poppedBy calls.length) := by
      unfold IndexBound at hi ⊢
      omega
    have hframe : HighFrame 0x01000000 := ⟨rfl, Nat.le_refl _, by decide⟩
    obtain ⟨j, hj, hlt, hw⟩ := ((hx.poppedBy _).recovered_iff hi' hframe).mp (hrec _ {} {} hframe)
    refine ⟨j, by omega, hlt, fun m h1 h2 => ?_⟩
    rcases Nat.eq_or_lt_of_le h1 with rfl | h1
    · exact hw
    · exact hall m (by omega) (by omega)
  · rintro ⟨j, hj, hlt, hw⟩
    have hi' : IndexBound (s.poppedBy calls.length) := by
      unfold IndexBound at hi ⊢
      omega
    refine ⟨_, (hx.fails_iff hi).mpr ⟨rfl, by omega, fun m h1 h2 => hw m (by omega) (by omega)⟩,
      fun f flags flags' hf => ?_⟩
    exact ((hx.poppedBy _).recovered_iff hi' hf).mpr ⟨j, by omega, hlt, hw j (Nat.le_refl j) (by omega)⟩

/-- After a run without a bad pop, with every pushed frame popped, there is room for no call at all. -/
theorem Sound.roomToFail_iff (hs : Sound s h) (hx : Established s p q) (he : h.entries = []) (k : Nat) :
    RoomToFail s p k ↔ k = 0 ∧ h.index = 0 ∧ h.pages.length = 2 := by
  cases hs.stores with
  | unmapped h32 =>
    rw [hx.stack32] at h32
    cases h32
  | mapped p' b top old hon hp hb he' hl h64 =>
    obtain rfl : p' = p := Option.some.inj (hon.frame.symm.trans hx.stack32)
    rw [he] at he'
    have htop : top = [] := List.reverse_eq_nil_iff.mp (List.append_eq_nil_iff.mp he'.symm).1
    have hidx := hon.index
    rw [htop, List.length_nil, hs.index] at hidx
    have hpages : 2 ≤ h.pages.length := by
      rcases h64 with ⟨hnone, -⟩ | ⟨_, -, -, hlen⟩
      · rw [hx.stack64] at hnone
        cases hnone
      · exact hlen
    unfold RoomToFail
    rw [hs.index]
    constructor
    · rintro ⟨j, hj, -, hw⟩
      obtain ⟨rfl, rfl, rfl⟩ : j = 0 ∧ k = 0 ∧ b = 1 := by omega
      refine ⟨rfl, by omega, ?_⟩
      rcases hl with ⟨hlen, -⟩ | ⟨-, -, f, -, hf⟩
      · omega
      · rw [hw 0 (by omega) (by omega)] at hf
        unfold FAIL at hf
        omega
    · rintro ⟨rfl, hzero, hlen⟩
      refine ⟨0, hzero, by decide, fun m _ hm => ?_⟩
      obtain rfl : m = 0 := by omega
      rcases hl with ⟨-, -, hw⟩ | ⟨hlen', -⟩
      · exact hw (by omega)
      · omega

end

/-- **Exhaustion.** In no exhausted state do calls fail, and leave the allocator able to recover,
however many there are. A given number of them does exactly if the index has room for so many; after
a run without a bad pop, with every pushed frame popped, that number is zero, at the bottom of the
first page. -/
theorem exhaustion_iff {s : State AddrSpace} {p : Nat} (hboot : FromBoot AddrSpace.paging s)
    (hx : Exhausted s p) :
    (¬ ∀ calls, FailsAndRecovers s calls) ∧ ∀ q, Established s p q →
      (∀ calls, FailsAndRecovers s calls ↔ RoomToFail s p calls.length) ∧
      ∀ h owned, PmmRun OpOk s h owned → h.entries = [] →
        ∀ calls, FailsAndRecovers s calls ↔ calls = [] ∧ h.index = 0 ∧ h.pages.length = 2 := by
  have hi := hboot.indexBound
  refine ⟨fun hall => ?_, fun q hq => ⟨fun calls => hq.failsAndRecovers_iff hi, ?_⟩⟩
  · obtain ⟨s', hfails, -⟩ := hall (List.replicate 1025 {})
    have hle := ((hx.fails_iff hi).mp hfails).2.1
    rw [List.length_replicate] at hle
    unfold IndexBound at hi
    omega
  · intro h owned hrun he calls
    rw [hq.failsAndRecovers_iff hi, hrun.sound.1.roomToFail_iff hq he, List.length_eq_zero_iff]

/-- A machine without usable memory to which two frames are freed: both store the stack. -/
theorem exists_established : ∃ s owned, PmmRun OpOk s ⟨[], [0x1001, 0x1000], 0⟩ owned ∧
    Established s 0x1000 0x1001 ∧ s.stack32_index = 0 ∧ s.space.frames 0x1000 0 = FAIL := by
  obtain ⟨m, hm⟩ : ∃ m, map_bitmaps AddrSpace.paging ⟨fun _ => 0, fun _ _ => 0⟩ = .ok m := ⟨_, rfl⟩
  have hinit : pmm_init AddrSpace.paging ⟨fun _ => 0, 0, false, ⟨fun _ => 0, fun _ _ => 0⟩⟩ [] =
      .ok ⟨initial_bitmaps, 0, true, m⟩ := by
    unfold pmm_init
    rw [hm]
    rfl
  have h32 : m.frame? (STACK32 / 4096) = none := map_bitmaps_frame hm (by decide) (by decide)
  have h64 : m.frame? (STACK64 / 4096) = none := map_bitmaps_frame hm (by decide) (by decide)
  have hpush1 : stack_push AddrSpace.paging ⟨initial_bitmaps, 0, true, m⟩ 0x01000000 = .ok _ :=
    push_first h32 (by decide)
  have hpush2 : stack_push AddrSpace.paging ⟨initial_bitmaps, 0, true, withStackPage m STACK32 0x01000000
      (PAGE_PRESENT ||| PAGE_RW)⟩ 0x01001000 = .ok _ :=
    push_second (withStackPage_frame (by decide)) (by decide)
      ((withStackPage_frame_ne windows_ne).trans h64) (by decide)
  have hf1 : HighFrame 0x01000000 := ⟨by decide, by decide, by decide⟩
  have hf2 : HighFrame 0x01001000 := ⟨by decide, by decide, by decide⟩
  have hmap : MmapOk .empty [] := trivial
  have h0 : PmmRun OpOk _ .empty _ := .init rfl rfl rfl hmap hinit
  have h1 := h0.step (hf1.opOk (by decide)) (hf1.exec_pfree hpush1)
  have hnew : 0x01001000 / 4096 ∉ History.frames ⟨[], [0x1000], 0⟩ := by decide
  have h2 := h1.step (hf2.opOk hnew) (hf2.exec_pfree hpush2)
  refine ⟨_, _, h2, ⟨⟨fun b hb => allocated_initial hb, ?_⟩, by decide, ?_, by decide⟩, rfl, ?_⟩
  · exact (withStackPage_frame_ne windows_ne.symm).trans (withStackPage_frame (by decide))
  · exact withStackPage_frame (by decide)
  · exact (congrFun (withStackPage_frames_ne (by decide)) 0).trans (withStackPage_frames (by decide))

/-- On that machine freeing a frame and allocating it again works as long as no call has failed. -/
theorem exhaustion_iff_established : ∃ s h owned, PmmRun OpOk s h owned ∧ Established s 0x1000 0x1001 ∧
    h.entries = [] ∧ FailsAndRecovers s [] ∧ ¬ ∀ calls, FailsAndRecovers s calls := by
  obtain ⟨s, owned, hrun, hest, -, -⟩ := exists_established
  obtain ⟨hnever, hiff⟩ := exhaustion_iff hrun.fromBoot hest.toExhausted
  exact ⟨s, _, owned, hrun, hest, rfl, ((hiff _ hest).2 _ _ hrun rfl []).mpr ⟨rfl, rfl, rfl⟩, hnever⟩

/-- The first call fails there; the second answers the frame the stack is stored in. -/
theorem exhausted_hands_out_list_page : ∃ s h owned, PmmRun OpOk s h owned ∧
    Established s 0x1000 0x1001 ∧ h.entries = [] ∧ (¬ FailsAndRecovers s [{}, {}]) ∧
    ∃ t u, kpmalloc AddrSpace.paging s {} = .ok (FAIL, t) ∧
      kpmalloc AddrSpace.paging t {} = .ok (0x01000000, u) := by
  obtain ⟨s, owned, hrun, hest, hi, hw⟩ := exists_established
  have hfirst := hest.kpmalloc_slot {} (k := 0) hi (by decide)
  rw [hw] at hfirst
  have hneg : s.popped.stack32_index < 0 := by
    show s.stack32_index - 1 < 0
    omega
  have hsecond := (hest.popped.kpmalloc {}).trans (pop_below_first {} hest.popped.stack32 hneg hw)
  refine ⟨s, _, owned, hrun, hest, rfl, ?_, s.popped, _, hfirst, hsecond⟩
  rintro ⟨s', hfails, -⟩
  have hle := ((hest.fails_iff hrun.fromBoot.indexBound).mp hfails).2.1
  rw [hi] at hle
  exact absurd hle (by decide)

end Condor.Pmm
